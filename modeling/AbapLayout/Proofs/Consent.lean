import AbapLayout.Command.Run
import AbapLayout.Proofs.Lexing
import AbapLayout.Proofs.Saving

/-!
# Consent

A run writes only with consent: checks, dry runs, and runs whose question is not answered by the
right word leave all files as they were.  And where a check finds nothing to do, the same request
for a fix writes nothing even with consent (`Command.run_consents`).

A file that a dry run reports as unchanged is treated alike by the real run, so that both give the
same reports as long as nothing has been written; and without links the workspace of a path that
leads to something is there, so that entering it makes no directory.  All of this holds whatever
reads the configuration files.
-/

namespace AbapLayout

/-! ## The directory of a path -/

namespace Path

theorem utf8ByteSize_intercalate_le (p : Path) (name : String) :
    ("/".intercalate p).utf8ByteSize ≤ ("/".intercalate (p ++ [name])).utf8ByteSize := by
  cases p with
  | nil => simp
  | cons first rest =>
      rw [String.intercalate_append_of_ne_nil (by simp) (by simp)]
      simp only [String.utf8ByteSize_append]
      omega

end Path

namespace FileTree

variable {t : FileTree}

/-- The displayed form of a path is no shorter than that of its directory, unless it is the home. -/
theorem utf8ByteSize_display_le {directory : Path} {name : String}
    (h : directory ++ [name] ≠ t.home) :
    (t.display directory).utf8ByteSize ≤ (t.display (directory ++ [name])).utf8ByteSize := by
  by_cases hhome : t.home <+: directory
  · obtain ⟨rest, rfl⟩ := hhome
    have hbelow : Path.below? t.home (t.home ++ rest ++ [name]) = some (rest ++ [name]) :=
      Path.below?_eq_some.mpr (List.append_assoc _ _ _)
    have hjoined := Path.utf8ByteSize_intercalate_le rest name
    cases rest with
    | nil =>
        have hroot : t.display (t.home ++ []) = t.root := by simp [display, Path.below?]
        rw [hroot, display, hbelow]
        simp only [List.nil_append, String.utf8ByteSize_append]
        omega
    | cons first rest =>
        have hshown : t.display (t.home ++ first :: rest) =
            t.root ++ "/" ++ "/".intercalate (first :: rest) := by
          rw [display, Path.below?_eq_some.mpr rfl]
        rw [hshown, display, hbelow]
        simp only [List.cons_append, String.utf8ByteSize_append] at hjoined ⊢
        omega
  · have hbeyond : ¬t.home <+: directory ++ [name] := by
      rw [List.prefix_concat_iff]
      rintro (heq | hfront)
      · exact h heq.symm
      · exact hhome hfront
    simp only [display, Path.below?_eq_none.mpr hhome, Path.below?_eq_none.mpr hbeyond,
      String.utf8ByteSize_append]
    have := Path.utf8ByteSize_intercalate_le directory name
    omega

theorem nameFault?_of_exists {p : Path} (h : t.exists? p = true) : t.nameFault? p = none := by
  unfold exists? target? at h
  unfold nameFault?
  split at h <;> simp_all

/-- What is there, and no directory, stands in a directory that is there too. -/
theorem Linkless.exists_directory (h : t.Linkless) {p : Path} (hp : Path.Proper p)
    (hexists : t.exists? p = true) :
    t.exists? (if t.isDirectory p then p else p.dropLast) = true := by
  split
  · exact hexists
  next hfile =>
    have hfollow : t.follow p = .ok p := by
      cases hfollow : t.follow p with
      | error obstacle => simp [exists?, target?, hfollow] at hexists
      | ok q => rw [(h.clear hp).eq_of_follow hfollow]
    have hnode : t.node? p ≠ some .directory := by
      intro hnode
      simp [isDirectory, target?, hfollow, hnode] at hfile
    rcases List.eq_nil_or_concat' p with rfl | ⟨directory, name, rfl⟩
    · simp [node?] at hnode
    have hhome : directory ++ [name] ≠ t.home := by
      rintro heq
      simp [node?, heq] at hnode
    have hdirectory := h.clear (Path.proper_append.mp hp).1
    have hsize := utf8ByteSize_display_le hhome
    rw [(h.clear hp).follow_eq] at hfollow
    split at hfollow
    · simp at hfollow
    rw [straight_append] at hfollow
    cases hway : t.straight [] directory with
    | error obstacle => simp [hway, Except.bind] at hfollow
    | ok q =>
        obtain rfl : q = directory := straight_eq_ok hway
        have hthere : t.follow q = .ok q := by
          rw [hdirectory.follow_eq, if_neg (by omega), hway]
        have hopen : t.node? q = some .directory := by
          simp only [hway, Except.bind, straight, barrier?] at hfollow
          split at hfollow
          · simp at hfollow
          next hbarrier => split at hbarrier <;> simp_all
        simp [exists?, target?, hthere, hopen]

end FileTree

/-! ## Dry runs -/

namespace Workspace

open FileTree

variable {t : FileTree} {w : Workspace} {path : String}

/-- A directory that is there is entered as it is. -/
theorem enter_of_exists {directory : Path} (h : t.exists? directory = true) (o : Options) :
    enter t directory o = ⟨.ok ⟨directory, o⟩, t, Layout.optionNotices o⟩ := by
  simp [enter, nameFault?_of_exists h, h]

theorem tree_formatFile_dry : (formatFile t w path true).tree = t := by
  have hsaved : saved? t w path true = none := by
    unfold saved?
    split
    · rfl
    · split <;> simp
  exact formatFile_of_not_saved hsaved

theorem formatAt_of_unchanged {p : Path} {report : Report}
    (h : (formatAt t w path p true).value = .ok report) (hunchanged : report.changed = false)
    (dryRun : Bool) : formatAt t w path p dryRun = formatAt t w path p true := by
  unfold formatAt at h ⊢
  generalize draft t w.options p = drafted at h ⊢
  obtain ⟨_ | d, log⟩ := drafted
  · rfl
  · have hreport : draftReport path true d = report := by simpa using h
    have hmodified : d.modified = false := by
      rw [← hunchanged, ← hreport, draftReport]
    simp [hmodified, draftReport, deriveStatus]

/-- A file that a dry run leaves unchanged is treated alike by the real run. -/
theorem formatFile_of_unchanged {report : Report}
    (h : (formatFile t w path true).value = .ok report) (hunchanged : report.changed = false)
    (dryRun : Bool) : formatFile t w path dryRun = formatFile t w path true := by
  unfold formatFile at h ⊢
  cases hresolve : t.resolve w.directory path with
  | error fault => rfl
  | ok p =>
      simp only [hresolve] at h ⊢
      cases hfault : t.nameFault? p with
      | some fault => rfl
      | none =>
          simp only [hfault] at h ⊢
          split at h
          next hexists =>
            rw [if_pos hexists, if_pos hexists, formatAt_of_unchanged h hunchanged]
          next hmissing => rw [if_neg hmissing, if_neg hmissing]

end Workspace

namespace Command

/-- A request that writes files if they change: a fix that is no dry run. -/
def Writes (r : Request) : Prop :=
  r.mode = .fix ∧ r.dryRun = false

theorem not_writes_iff {r : Request} : ¬Writes r ↔ r.mode = .check ∨ r.dryRun = true := by
  unfold Writes
  cases r.mode <;> simp

section Formatting

variable {t : FileTree} {w : Workspace} {c r : Request}

theorem tree_formatAll_dry (names : List String) : (formatAll t w r true names).2.2.1 = t := by
  induction names with
  | nil => rfl
  | cons name rest ih =>
      rw [formatAll]
      dsimp only
      split
      · exact Workspace.tree_formatFile_dry
      · rw [Workspace.tree_formatFile_dry, ih]

/-- As long as a dry run leaves every file unchanged, the real run does the same. -/
theorem formatAll_of_unchanged (hdiff : r.diff = c.diff) {names : List String}
    {reports : List Report} (h : (formatAll t w c true names).1 = .ok reports)
    (hunchanged : ∀ report ∈ reports, report.changed = false) (dryRun : Bool) :
    formatAll t w r dryRun names = formatAll t w c true names := by
  induction names generalizing reports with
  | nil => rfl
  | cons name rest ih =>
      rw [formatAll] at h
      dsimp only at h
      split at h
      · simp at h
      next first hfirst =>
        rw [Workspace.tree_formatFile_dry] at h
        obtain ⟨others, hothers, rfl⟩ : ∃ others, (formatAll t w c true rest).1 = .ok others ∧
            first :: others = reports := by
          cases hall : (formatAll t w c true rest).1 with
          | error fault => simp [hall, Except.map] at h
          | ok others => exact ⟨others, rfl, by simpa [hall, Except.map] using h⟩
        obtain ⟨hchanged, hrest⟩ := List.forall_mem_cons.mp hunchanged
        have hsame := Workspace.formatFile_of_unchanged hfirst hchanged dryRun
        have hshown : differenceOf r name first = differenceOf c name first := by
          simp only [differenceOf, hdiff]
        simp only [formatAll, hsame, hfirst, Workspace.tree_formatFile_dry, ih hothers hrest,
          hshown]

/-- A check is fine if nothing would change and every file could be formatted. -/
theorem statusOf_of_check {reports : List Report} (h : statusOf .check reports = 0) :
    (∀ report ∈ reports, report.changed = false) ∧ ∀ mode, statusOf mode reports = 0 := by
  unfold statusOf at h ⊢
  split at h
  · simp at h
  next hchanged =>
    have hunchanged : ∀ report ∈ reports, report.changed = false := by simpa using hchanged
    refine ⟨hunchanged, fun mode => ?_⟩
    rw [if_neg (by simpa using fun _ => hunchanged)]
    exact h

theorem tree_proceed_dry (h : ¬Writes r) (files : List Path) :
    (proceed t w r files).tree = t := by
  have hdry : (r.mode == .check || r.dryRun) = true := by simpa using not_writes_iff.mp h
  have htree := tree_formatAll_dry (t := t) (w := w) (r := r)
    (files.map fun p => Path.text (p.drop w.directory.length))
  unfold proceed
  simp only [hdry]
  split <;> exact htree

/-- After a check that is fine, a fix does what the check did. -/
theorem proceed_of_check (hmode : c.mode = .check) (hdiff : r.diff = c.diff) {files : List Path}
    (h : (proceed t w c files).status = .ok 0) : proceed t w r files = proceed t w c files := by
  unfold proceed at h ⊢
  simp only [hmode, beq_self_eq_true, Bool.true_or] at h ⊢
  cases hreports : (formatAll t w c true
      (files.map fun p => Path.text (p.drop w.directory.length))).1 with
  | error fault => simp [hreports] at h
  | ok reports =>
      simp only [hreports, Except.ok.injEq] at h
      obtain ⟨hunchanged, hstatus⟩ := statusOf_of_check h
      simp only [formatAll_of_unchanged hdiff hreports hunchanged, hreports, hstatus]

end Formatting

/-! ## Questions and answers -/

/-- Consent to writing a number of files, by a flag or by the answer to the question. -/
def Consents (r : Request) (count : Nat) (a : Answer) : Prop :=
  r.yesAll = true ∨
    if count = 1 then r.yes = true ∨ a = .line "y" ∨ a = .line "Y" else a = .line "CONFIRM"

section Asking

variable {t : FileTree} {w : Workspace} {r : Request} {input : Path} {files : List Path}
  {count : Nat} {a : Answer}

/-- Nothing is asked if nothing is written or a flag gives consent. -/
theorem consents_of_no_question (h : question? r count = none) (hwrites : Writes r) (a : Answer) :
    Consents r count a := by
  unfold question? at h
  unfold Consents
  split at h
  next hskip =>
    rcases hskip with hmode | hdry | hyesAll
    · exact absurd hwrites (not_writes_iff.mpr (.inl hmode))
    · exact absurd hwrites (not_writes_iff.mpr (.inr hdry))
    · exact .inl hyesAll
  split at h
  next hone =>
    split at h
    next hyes => exact .inr (by rw [if_pos hone]; exact .inl hyes)
    · simp at h
  · simp at h

/-- A question is asked only where its answer decides. -/
theorem consents_of_question {shown : List Shown} {consents : String → Bool}
    (h : question? r count = some (shown, consents)) :
    Writes r ∧ (Consents r count a ↔ ∃ s, a = .line s ∧ consents s = true) := by
  unfold question? at h
  split at h
  · simp at h
  next hasked =>
    obtain ⟨hmode, hdry, hyesAll⟩ : ¬r.mode = .check ∧ ¬r.dryRun = true ∧ ¬r.yesAll = true := by
      simpa [not_or] using hasked
    refine ⟨not_not.mp fun hwrites => (not_writes_iff.mp hwrites).elim hmode hdry, ?_⟩
    unfold Consents
    split at h
    next hone =>
      split at h
      · simp at h
      next hyes =>
        simp only [Option.some.injEq, Prod.mk.injEq] at h
        obtain ⟨-, rfl⟩ := h
        simp only [hyesAll, hone, hyes, if_true, Bool.or_eq_true, beq_iff_eq]
        grind
    next hmany =>
      simp only [Option.some.injEq, Prod.mk.injEq] at h
      obtain ⟨-, rfl⟩ := h
      simp [hyesAll, hmany]

/-- With consent, and where none is needed, the files are formatted. -/
theorem finish_runIn_of_consents (hfiles : targets t r input = .ok files) (hne : files ≠ [])
    (h : Writes r → Consents r files.length a) :
    ∃ shown, (runIn t w r input).finish a =
      { proceed t w r files with shown := shown ++ (proceed t w r files).shown } := by
  obtain ⟨first, rest, rfl⟩ := List.exists_cons_of_ne_nil hne
  unfold runIn
  simp only [hfiles]
  cases hquestion : question? r (first :: rest).length with
  | none => exact ⟨[], rfl⟩
  | some question =>
      obtain ⟨shown, consents⟩ := question
      obtain ⟨hwrites, hconsents⟩ := consents_of_question (a := a) hquestion
      obtain ⟨s, rfl, hs⟩ := hconsents.mp (h hwrites)
      exact ⟨shown, by simp [Conversation.finish, answered, hs]⟩

/-- Without consent all files stay as they are. -/
theorem tree_runIn_of_unconfirmed
    (h : ∀ files, targets t r input = .ok files → Writes r → ¬Consents r files.length a) :
    ((runIn t w r input).finish a).tree = t := by
  unfold runIn
  split
  · rfl
  · rfl
  next files hne hfiles =>
    split
    next hquestion =>
      refine tree_proceed_dry (fun hwrites => ?_) files
      exact h files hfiles hwrites (consents_of_no_question hquestion hwrites a)
    next shown consents hquestion =>
      obtain ⟨hwrites, hconsents⟩ := consents_of_question (a := a) hquestion
      have hno := h files hfiles hwrites
      cases a with
      | line s =>
          have hs : consents s = false := by simpa using fun hs => hno (hconsents.mpr ⟨s, rfl, hs⟩)
          simp [Conversation.finish, answered, hs]
      | interrupt => rfl
      | endOfInput => rfl

end Asking

/-! ## Requests -/

section Requests

variable {t : FileTree} {c r : Request} {input : Path} {w : Workspace}

/-- Two requests with the same path and the same options. -/
structure SameTask (c r : Request) : Prop where
  path : r.path = c.path
  diff : r.diff = c.diff
  config : r.config = c.config
  extensions : r.extensions = c.extensions
  overrides : r.overrides = c.overrides

theorem SameTask.targets_eq (h : SameTask c r) (t : FileTree) (input : Path) :
    targets t r input = targets t c input := by
  simp only [targets, h.extensions]

/-- A conversation behind something ends as it would without it. -/
theorem finish_after (shown : List Shown) (log : List LogEntry) (c : Conversation) (a : Answer) :
    (c.after shown log).finish a =
      { c.finish a with
        shown := shown ++ (c.finish a).shown
        log := log ++ (c.finish a).log } := by
  cases c <;> simp [Conversation.after, Conversation.finish]

theorem runLoaded_error (t : FileTree) (r : Request) (input : Path) (fault : ConfigFault)
    (log : List LogEntry) :
    ∃ e, runLoaded t r input (.error fault, log) = .finished e ∧ e.tree = t ∧ e.status ≠ .ok 0 := by
  cases fault <;> exact ⟨_, rfl, rfl, by simp⟩

def fileCount (t : FileTree) (r : Request) : Nat :=
  match t.resolve t.home r.path with
  | .error _ => 0
  | .ok input =>
    match targets t r input with
    | .error _ => 0
    | .ok files => files.length

variable [Config.Reader]

/-- A request gets as far as to its files: its path leads to something, and its options can be
loaded. -/
structure Opens (t : FileTree) (r : Request) (input : Path) (w : Workspace) : Prop where
  leads : t.resolve t.home r.path = .ok input
  there : t.exists? input = true
  directory : w.directory = if t.isDirectory input then input else input.dropLast
  options : ∃ location, configLocation t r input = .ok location ∧
    (Config.load t location r.overrides).1 = .ok w.options

theorem SameTask.opens (h : SameTask c r) (hopens : Opens t c input w) : Opens t r input w where
  leads := h.path ▸ hopens.leads
  there := hopens.there
  directory := hopens.directory
  options := by
    obtain ⟨location, hlocation, hload⟩ := hopens.options
    refine ⟨location, ?_, by rw [h.overrides, hload]⟩
    rw [← hlocation]
    simp only [configLocation, h.config]

/-- A request whose workspace is entered is run there, on the tree as it was. -/
theorem runRequest_of_opens (hlinks : t.Linkless) (h : Opens t r input w) :
    ∃ log, runRequest t r = (runIn t w r input).after [header (subtitle r.mode)] log := by
  obtain ⟨hinput, hthere, hdirectory, location, hlocation, hload⟩ := h
  have hfault := FileTree.nameFault?_of_exists hthere
  have hentered := Workspace.enter_of_exists
    (hlinks.exists_directory (FileTree.proper_of_resolve hinput) hthere) w.options
  obtain ⟨log, hload⟩ : ∃ log, Config.load t location r.overrides = (.ok w.options, log) :=
    ⟨_, Prod.ext hload rfl⟩
  rw [← hdirectory] at hentered
  refine ⟨log ++ Layout.optionNotices w.options, ?_⟩
  simp only [runRequest, hinput, hfault, hthere, if_true, runAt, hlocation, hload, runLoaded]
  rw [← hdirectory, hentered]
  cases hruns : runIn t w r input <;> simp [hruns, Conversation.after]

/-- A request that gets no further ends at once, with everything as it was. -/
theorem runRequest_cases (t : FileTree) (r : Request) :
    (∃ input w, Opens t r input w) ∨
      ∃ e, runRequest t r = .finished e ∧ e.tree = t ∧ e.status ≠ .ok 0 := by
  unfold runRequest
  cases hinput : t.resolve t.home r.path with
  | error fault => exact .inr ⟨_, rfl, rfl, by simp⟩
  | ok input =>
      dsimp only
      split
      · exact .inr ⟨_, rfl, rfl, by simp⟩
      split
      next hthere =>
        unfold runAt
        cases hlocation : configLocation t r input with
        | error fault => exact .inr ⟨_, rfl, rfl, by simp⟩
        | ok location =>
            rcases hload : Config.load t location r.overrides with ⟨fault | o, log⟩
            · obtain ⟨e, hends, htree, hstatus⟩ := runLoaded_error t r input fault log
              refine .inr
                ⟨{ e with shown := header (subtitle r.mode) :: e.shown }, ?_, htree, hstatus⟩
              dsimp only
              rw [hload, hends]
              rfl
            · exact .inl ⟨input, ⟨_, o⟩, hinput, hthere, rfl, location, hlocation, by rw [hload]⟩
      · exact .inr ⟨_, rfl, rfl, by simp⟩

theorem fileCount_of_opens (h : Opens t r input w) {files : List Path}
    (hfiles : targets t r input = .ok files) : fileCount t r = files.length := by
  simp [fileCount, h.leads, hfiles]

/-- Without consent a request leaves all files as they are. -/
theorem tree_runRequest_of_unconfirmed (hlinks : t.Linkless) {a : Answer}
    (h : Writes r → ¬Consents r (fileCount t r) a) :
    ((runRequest t r).finish a).tree = t := by
  rcases runRequest_cases t r with ⟨input, w, hopens⟩ | ⟨e, hends, htree, -⟩
  · obtain ⟨log, hruns⟩ := runRequest_of_opens hlinks hopens
    rw [hruns, finish_after]
    refine tree_runIn_of_unconfirmed fun files hfiles hwrites => ?_
    rw [← fileCount_of_opens hopens hfiles]
    exact h hwrites
  · rw [hends]
    exact htree

/-- Where a check finds nothing to do, a fix does nothing. -/
theorem runRequest_of_check (hlinks : t.Linkless) (hmode : c.mode = .check) (h : SameTask c r)
    {a b : Answer} (hcheck : ((runRequest t c).finish a).status = .ok 0)
    (hconsents : Writes r → Consents r (fileCount t r) b) :
    ((runRequest t r).finish b).status = .ok 0 ∧ ((runRequest t r).finish b).tree = t := by
  rcases runRequest_cases t c with ⟨input, w, hopens⟩ | ⟨e, hends, -, hstatus⟩
  · obtain ⟨_, hchecks⟩ := runRequest_of_opens hlinks hopens
    obtain ⟨_, hfixes⟩ := runRequest_of_opens hlinks (h.opens hopens)
    rw [hchecks, finish_after] at hcheck
    rw [hfixes, finish_after]
    have htargets := h.targets_eq t input
    cases hfiles : targets t c input with
    | error fault => simp [runIn, hfiles, failed, Conversation.finish] at hcheck
    | ok files =>
        rw [hfiles] at htargets
        by_cases hne : files = []
        · subst hne
          simp [runIn, htargets, Conversation.finish]
        · obtain ⟨_, hcheckEnds⟩ := finish_runIn_of_consents (a := a) hfiles hne fun hwrites =>
            absurd hwrites (not_writes_iff.mpr (.inl hmode))
          rw [fileCount_of_opens (h.opens hopens) htargets] at hconsents
          obtain ⟨_, hfixEnds⟩ := finish_runIn_of_consents (w := w) htargets hne hconsents
          rw [hcheckEnds] at hcheck
          rw [hfixEnds, proceed_of_check hmode h.diff hcheck]
          exact ⟨hcheck, tree_proceed_dry (not_writes_iff.mpr (.inl hmode)) files⟩
  · rw [hends] at hcheck
    exact absurd hcheck hstatus

end Requests

/-! ## Runs -/

/-- The program runs what its arguments ask for. -/
theorem run_of_request [Config.Reader] {t : FileTree} {arguments : List String} {r : Request}
    (h : Arguments.parse arguments = .request r) : run t arguments = runRequest t r := by
  have hne : arguments ≠ [] := by
    rintro rfl
    simp [Arguments.parse, Arguments.itemsOf, Arguments.readMain] at h
  simp [run, hne, h]

/-- Nothing is written without consent, and nothing at all where the same request finds nothing to
do as a check, whatever reads the configuration files. -/
theorem run_consents [Config.Reader] {t : FileTree} (hlinks : t.Linkless) :
    (∀ (arguments : List String) (a : Answer),
      (∀ r, Arguments.parse arguments = .request r → Writes r →
        ¬Consents r (fileCount t r) a) →
      ((run t arguments).finish a).tree = t) ∧
    ∀ (checking fixing : List String) (c r : Request) (a b : Answer),
      Arguments.parse checking = .request c → Arguments.parse fixing = .request r →
      c.mode = .check → r.mode = .fix → SameTask c r →
      ((run t checking).finish a).status = .ok 0 →
      (Writes r → Consents r (fileCount t r) b) →
      ((run t fixing).finish b).status = .ok 0 ∧ ((run t fixing).finish b).tree = t := by
  constructor
  · intro arguments a h
    by_cases hempty : arguments = []
    · subst hempty
      rfl
    cases hparse : Arguments.parse arguments with
    | stop status => simp [run, hempty, hparse, Conversation.finish]
    | request r =>
        rw [run_of_request hparse]
        exact tree_runRequest_of_unconfirmed hlinks (h r hparse)
  · intro checking fixing c r a b hchecking hfixing hcheck _ hsame hfine hconsents
    rw [run_of_request hchecking] at hfine
    rw [run_of_request hfixing]
    exact runRequest_of_check hlinks hcheck hsame hfine hconsents

/-- Two files, of which the first one needs no layout. -/
def tidyAndUntidy : FileTree where
  root := "/home"
  home := ["home"]
  entries :=
    [(["home", "tidy.abap"], .file (Text.toUtf8 "WRITE a.\n".toList) .fresh),
      (["home", "x.abap"], .file (Text.toUtf8 "write  a.".toList) .fresh)]

theorem run_consents_tidyAndUntidy :
    tidyAndUntidy.Linkless ∧
      ((run tidyAndUntidy ["fix", "x.abap"]).finish (.line "n")).tree = tidyAndUntidy ∧
      ((run tidyAndUntidy ["fix", "x.abap"]).finish (.line "y")).tree ≠ tidyAndUntidy ∧
      ((run tidyAndUntidy ["check", "tidy.abap"]).finish .endOfInput).status = .ok 0 ∧
      ((run tidyAndUntidy ["fix", "tidy.abap"]).finish (.line "y")).status = .ok 0 ∧
      ((run tidyAndUntidy ["fix", "tidy.abap"]).finish (.line "y")).tree = tidyAndUntidy := by
  have hlinks : tidyAndUntidy.Linkless := FileTree.linkless_of_entries (by simp [tidyAndUntidy])
  have hasks : Arguments.parse ["fix", "x.abap"] = .request { mode := .fix, path := "x.abap" } := by
    with_unfolding_all rfl
  have hchecks : Arguments.parse ["check", "tidy.abap"] =
      .request { mode := .check, path := "tidy.abap" } := by
    with_unfolding_all rfl
  have hfixes : Arguments.parse ["fix", "tidy.abap"] =
      .request { mode := .fix, path := "tidy.abap" } := by
    with_unfolding_all rfl
  have hfine : ((run tidyAndUntidy ["check", "tidy.abap"]).finish .endOfInput).status = .ok 0 :=
    eq_ok_of_toOption (by decide +kernel)
  have hsingle : fileCount tidyAndUntidy { mode := .fix, path := "tidy.abap" } = 1 := by
    decide +kernel
  obtain ⟨hunconfirmed, hconfirmed⟩ := run_consents hlinks
  refine ⟨hlinks, hunconfirmed _ _ fun r hr _ => ?_, by decide +kernel, hfine, ?_⟩
  · obtain rfl : { mode := .fix, path := "x.abap" } = r := by simpa [hasks] using hr
    simp [Consents]
  · refine hconfirmed _ _ _ _ _ _ hchecks hfixes rfl rfl ⟨rfl, rfl, rfl, rfl, rfl⟩ hfine ?_
    intro
    simp [Consents, hsingle]

end Command
end AbapLayout
