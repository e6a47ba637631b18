import AbapLayout.FileTree.Basic

/-!
# Walking through file trees

What stands at a path after something has been put at another one, and where a path leads on whose
way no link stands: to itself, if it leads anywhere (`FileTree.Clear.eq_of_follow`).  In a tree
without links a path in displayed form is followed by its names alone
(`FileTree.Linkless.resolve_eq`).
-/

namespace AbapLayout

namespace Path

/-- A name that leads into a directory, neither an idle one nor a step back. -/
def IsStep (name : String) : Prop :=
  isIdle name = false ∧ name ≠ ".."

/-- A path of such names only. -/
def Proper (p : Path) : Prop :=
  ∀ name ∈ p, IsStep name

instance (name : String) : Decidable (IsStep name) :=
  inferInstanceAs (Decidable (_ ∧ _))

instance (p : Path) : Decidable (Proper p) :=
  inferInstanceAs (Decidable (∀ name ∈ p, IsStep name))

/-- Follows one name without regard to what is there. -/
def follow (q : Path) (name : String) : Path :=
  if isIdle name then q else if name == ".." then q.dropLast else q ++ [name]

theorem proper_append {p q : Path} : Proper (p ++ q) ↔ Proper p ∧ Proper q :=
  List.forall_mem_append

theorem Proper.foldl_follow {q : Path} (hq : Proper q) (names : List String) :
    Proper (names.foldl follow q) := by
  induction names generalizing q with
  | nil => exact hq
  | cons name rest ih =>
      refine ih ?_
      unfold follow
      split
      · exact hq
      split
      · exact fun name hname => hq name ((List.dropLast_sublist q).subset hname)
      next hidle hback =>
        have hname : IsStep name := ⟨by simpa using hidle, by simpa using hback⟩
        exact proper_append.mpr ⟨hq, by simpa [Proper] using hname⟩

theorem proper_normalize (p : Path) : Proper (normalize p) :=
  Proper.foldl_follow (by simp [Proper]) p

/-- Proper names are followed one by one. -/
theorem foldl_follow_of_proper {names : List String} (h : Proper names) (q : Path) :
    names.foldl follow q = q ++ names := by
  induction names generalizing q with
  | nil => simp
  | cons name rest ih =>
      obtain ⟨hname, hrest⟩ := List.forall_mem_cons.mp h
      have hfollow : follow q name = q ++ [name] := by simp [follow, hname.1, hname.2]
      rw [List.foldl_cons, hfollow, ih hrest, List.append_assoc, List.singleton_append]

theorem normalize_of_proper {p : Path} (h : Proper p) : normalize p = p :=
  foldl_follow_of_proper h []

theorem below?_eq_some {directory p rest : Path} :
    below? directory p = some rest ↔ p = directory ++ rest := by
  unfold below?
  constructor
  · intro h
    split at h
    next hfront =>
      obtain ⟨tail, rfl⟩ := List.isPrefixOf_iff_prefix.mp hfront
      simpa [eq_comm] using h
    · simp at h
  · rintro rfl
    simp

theorem below?_eq_none {directory p : Path} : below? directory p = none ↔ ¬directory <+: p := by
  simp [below?]

end Path

namespace FileTree

/-! ## What stands at a path -/

section Entries

variable (t : FileTree) (p : Path) (n : Node)

@[simp] theorem home_set : (t.set p n).home = t.home := by
  unfold set
  split <;> rfl

@[simp] theorem root_set : (t.set p n).root = t.root := by
  unfold set
  split <;> rfl

theorem lookup_set (q : Path) :
    (t.set p n).entries.lookup q = if q = p then some n else t.entries.lookup q := by
  have hreplaced (l : List (Path × Node)) :
      (l.map fun e => if e.1 = p then (p, n) else e).lookup q =
        if q = p then (if l.any (·.1 == p) then some n else none) else l.lookup q := by
    induction l with
    | nil => simp
    | cons e l ih =>
        rw [List.map_cons, List.lookup_cons, List.lookup_cons, ih]
        grind
  unfold set
  split
  next hthere => simp only [hreplaced, hthere, if_true]
  next hnew =>
    have hmissing : t.entries.lookup p = none := by
      rw [List.lookup_eq_none_iff]
      intro e he
      simp only [List.any_eq_true, not_exists, not_and] at hnew
      exact bne_iff_ne.mpr fun heq => hnew e he (beq_iff_eq.mpr heq.symm)
    rw [List.lookup_append, List.lookup_cons]
    grind

theorem lookup_erase {q : Path} (h : q ≠ p) :
    (t.erase p).entries.lookup q = t.entries.lookup q := by
  unfold erase
  induction t.entries with
  | nil => rfl
  | cons e l ih => grind

theorem node?_set (q : Path) :
    (t.set p n).node? q =
      if q.isPrefixOf t.home then some .directory else if q = p then some n else t.node? q := by
  unfold node?
  rw [home_set, lookup_set]
  grind

theorem node?_set_of_ne {q : Path} (h : q ≠ p) : (t.set p n).node? q = t.node? q := by
  rw [node?_set, if_neg h]
  unfold node?
  split <;> rfl

/-- Something that is put where nothing was, or where no directory was, stands there. -/
theorem node?_set_self (h : t.node? p ≠ some .directory) : (t.set p n).node? p = some n := by
  have hhome : p.isPrefixOf t.home = false := by
    cases hp : p.isPrefixOf t.home with
    | false => rfl
    | true => simp [node?, hp] at h
  simp [node?_set, hhome]

theorem node?_erase_of_ne {q : Path} (h : q ≠ p) : (t.erase p).node? q = t.node? q := by
  unfold node?
  rw [lookup_erase t p h]
  rfl

/-- What has just been put where nothing was can be taken away again. -/
theorem erase_set (h : ∀ e ∈ t.entries, e.1 ≠ p) : (t.set p n).erase p = t := by
  have hnew : t.entries.any (·.1 == p) = false := by simpa using h
  have hkept : t.entries.filter (·.1 != p) = t.entries := by simpa using h
  simp [set, erase, hnew, hkept]

end Entries

theorem mem_entries_of_node? {t : FileTree} {p : Path} {n : Node}
    (h : t.node? p = some n) (hn : n ≠ .directory) : (p, n) ∈ t.entries := by
  unfold node? at h
  split at h
  · exact absurd (Option.some.inj h).symm hn
  · obtain ⟨before, behind, hsplit, -⟩ := List.lookup_eq_some_iff.mp h
    rw [hsplit]
    simp

/-! ## Ways without links -/

/-- No link stands at a path of proper names or on the way to it. -/
structure Clear (t : FileTree) (p : Path) : Prop where
  proper : Path.Proper p
  links : ∀ q target, q <+: p → t.node? q ≠ some (.link target)

/-- Goes step by step through directories; links are no directories. -/
def straight (t : FileTree) (place : Path) : List String → Except Obstacle Path
  | [] => .ok place
  | name :: rest =>
    match t.barrier? place with
    | some obstacle => .error obstacle
    | none =>
      if maxNameSize < name.utf8ByteSize then .error .nameTooLong
      else t.straight (place ++ [name]) rest

variable {t : FileTree}

theorem straight_eq_ok {place q : Path} {names : List String} (h : t.straight place names = .ok q) :
    q = place ++ names := by
  fun_induction straight t place names with
  | case1 place => simpa using h.symm
  | case2 | case3 => simp at h
  | case4 place name rest _ _ ih => simpa using ih h

theorem straight_ne_tooManyLinks (place : Path) (names : List String) :
    t.straight place names ≠ .error .tooManyLinks := by
  fun_induction straight t place names with
  | case1 | case3 => simp
  | case2 place name rest obstacle hbarrier =>
      rintro heq
      injection heq with heq
      subst heq
      unfold barrier? at hbarrier
      split at hbarrier <;> simp at hbarrier
  | case4 place name rest _ _ ih => exact ih

theorem straight_append (place : Path) (names more : List String) :
    t.straight place (names ++ more) =
      (t.straight place names).bind fun q => t.straight q more := by
  fun_induction straight t place names with
  | case1 place => rfl
  | case2 place name rest obstacle hbarrier =>
      rw [List.cons_append, straight, hbarrier]
      rfl
  | case3 place name rest hbarrier hlong =>
      rw [List.cons_append, straight, hbarrier]
      simp [hlong, Except.bind]
  | case4 place name rest hbarrier hlong ih =>
      rw [List.cons_append, straight, hbarrier]
      simpa [hlong] using ih

/-- The way stays open where directories stay. -/
theorem straight_mono {t' : FileTree}
    (h : ∀ q, t.node? q = some .directory → t'.node? q = some .directory) {place q : Path}
    {names : List String} (hq : t.straight place names = .ok q) :
    t'.straight place names = .ok q := by
  fun_induction straight t place names with
  | case1 place => exact hq
  | case2 | case3 => simp at hq
  | case4 place name rest hbarrier hlong ih =>
      have hdirectory : t.node? place = some .directory := by
        unfold barrier? at hbarrier
        split at hbarrier <;> simp_all
      have hopen : t'.barrier? place = none := by simp [barrier?, h place hdirectory]
      rw [straight, hopen]
      simpa [hlong] using ih hq

/-- Where no link stands, walking goes straight on. -/
theorem walkWith_eq_straight (enter : Path → String → List String → Except Obstacle Path)
    {place : Path} {names : List String} (h : t.Clear (place ++ names)) :
    t.walkWith enter place names = t.straight place names := by
  induction names generalizing place with
  | nil => rfl
  | cons name rest ih =>
      rw [List.append_cons] at h
      obtain ⟨-, hname⟩ := Path.proper_append.mp (Path.proper_append.mp h.proper).1
      obtain ⟨hidle, hback⟩ := hname name (by simp)
      have hhere := fun target => h.links (place ++ [name]) target (List.prefix_append _ rest)
      rw [walkWith, straight]
      cases t.barrier? place with
      | some obstacle => rfl
      | none =>
          dsimp only
          rw [if_neg (by simp [hidle]), if_neg hback]
          split
          · rfl
          · split
            next target hlink => exact absurd hlink (hhere target)
            next => exact ih h

theorem walk_eq_straight (links : Nat) {place : Path} {names : List String}
    (h : t.Clear (place ++ names)) : t.walk links place names = t.straight place names := by
  cases links <;> exact walkWith_eq_straight _ h

namespace Clear

variable {p q : Path}

theorem follow_eq (h : t.Clear p) :
    t.follow p =
      if maxPathSize < (t.display p).utf8ByteSize then .error .nameTooLong
      else t.straight [] p := by
  have hwalk : t.walk maxLinks [] p = t.straight [] p := walk_eq_straight maxLinks h
  rw [FileTree.follow, hwalk]

/-- A path on whose way no link stands leads to itself, if it leads anywhere. -/
theorem eq_of_follow (h : t.Clear p) (hfollow : t.follow p = .ok q) : q = p := by
  rw [h.follow_eq] at hfollow
  split at hfollow
  · simp at hfollow
  · exact straight_eq_ok hfollow

theorem isSome_of_exists (h : t.Clear p) (hexists : t.exists? p = true) :
    (t.node? p).isSome = true := by
  unfold exists? target? at hexists
  split at hexists
  next q hfollow => rwa [h.eq_of_follow hfollow] at hexists
  next => simp at hexists

end Clear

/-! ## Names in one directory -/

/-- A path in the same directory whose way is clear leads to itself as well, unless its name or its
displayed form is too long. -/
theorem follow_beside
    {directory : Path} {name other : String} (h : t.Clear (directory ++ [name]))
    (hother : t.Clear (directory ++ [other]))
    (hfollow : t.follow (directory ++ [name]) = .ok (directory ++ [name])) :
    t.follow (directory ++ [other]) = .ok (directory ++ [other]) ∨
      t.follow (directory ++ [other]) = .error .nameTooLong := by
  rw [h.follow_eq] at hfollow
  rw [hother.follow_eq]
  split at hfollow
  · simp at hfollow
  split
  · exact .inr rfl
  rw [straight_append] at hfollow ⊢
  cases hdirectory : t.straight [] directory with
  | error obstacle => simp [hdirectory, Except.bind] at hfollow
  | ok q =>
      obtain rfl : q = directory := straight_eq_ok hdirectory
      rw [hdirectory] at hfollow
      simp only [Except.bind, straight] at hfollow ⊢
      cases hbarrier : t.barrier? q with
      | some obstacle => simp [hbarrier] at hfollow
      | none =>
          dsimp only
          split
          · exact .inr rfl
          · exact .inl rfl

/-- A path whose way is clear leads to itself also in a tree with the same directories and more. -/
theorem follow_of_directories {t' : FileTree} {p : Path} (hroot : t'.root = t.root)
    (hhome : t'.home = t.home)
    (hdirectories : ∀ q, t.node? q = some .directory → t'.node? q = some .directory)
    (hclear : t.Clear p) (hclear' : t'.Clear p) (hfollow : t.follow p = .ok p) :
    t'.follow p = .ok p := by
  have hdisplay : t'.display p = t.display p := by simp [display, hroot, hhome]
  rw [hclear.follow_eq] at hfollow
  rw [hclear'.follow_eq, hdisplay]
  split at hfollow
  · simp at hfollow
  next hfits => rw [if_neg hfits, straight_mono hdirectories hfollow]

/-- In a directory below the home, the displayed form of a path ends in its name. -/
theorem display_concat {directory : Path} (h : t.home <+: directory) :
    ∃ s, ∀ name, t.display (directory ++ [name]) = s ++ name := by
  obtain ⟨rest, rfl⟩ := h
  have hbelow (name : String) :
      Path.below? t.home (t.home ++ rest ++ [name]) = some (rest ++ [name]) :=
    Path.below?_eq_some.mpr (List.append_assoc _ _ _)
  cases rest with
  | nil =>
      refine ⟨t.root ++ "/", fun name => ?_⟩
      rw [display, hbelow]
      simp
  | cons first rest =>
      refine ⟨t.root ++ "/" ++ "/".intercalate (first :: rest) ++ "/", fun name => ?_⟩
      have hjoined : "/".intercalate (first :: (rest ++ [name])) =
          "/".intercalate (first :: rest) ++ "/" ++ name := by
        rw [← List.cons_append, String.intercalate_append_of_ne_nil (by simp) (by simp),
          String.intercalate_singleton]
      rw [display, hbelow]
      simp only [List.cons_append, hjoined, String.append_assoc]

/-- What leads to itself in a directory below the home still does so under a name that is no
longer. -/
theorem follow_of_size_le {directory : Path} {name other : String}
    (h : t.Clear (directory ++ [name])) (hother : t.Clear (directory ++ [other]))
    (hhome : t.home <+: directory) (hsize : other.utf8ByteSize ≤ name.utf8ByteSize)
    (hfollow : t.follow (directory ++ [name]) = .ok (directory ++ [name])) :
    t.follow (directory ++ [other]) = .ok (directory ++ [other]) := by
  obtain ⟨s, hdisplay⟩ := display_concat hhome
  rw [h.follow_eq] at hfollow
  rw [hother.follow_eq]
  simp only [hdisplay, String.utf8ByteSize_append, straight_append] at hfollow ⊢
  split at hfollow
  · simp at hfollow
  rw [if_neg (by omega)]
  cases hdirectory : t.straight [] directory with
  | error obstacle => simp [hdirectory, Except.bind] at hfollow
  | ok q =>
      simp only [hdirectory, Except.bind, straight] at hfollow ⊢
      cases hbarrier : t.barrier? q with
      | some obstacle => simp [hbarrier] at hfollow
      | none =>
          simp only [hbarrier] at hfollow
          dsimp only
          split at hfollow
          · simp at hfollow
          · rw [if_neg (by omega), straight_eq_ok hdirectory, List.nil_append]

/-! ## Trees without links -/

/-- No link stands anywhere. -/
def Linkless (t : FileTree) : Prop :=
  ∀ p target, t.node? p ≠ some (.link target)

theorem linkless_of_entries (h : ∀ e ∈ t.entries, ∀ target, e.2 ≠ .link target) : t.Linkless := by
  intro p target hlink
  exact h _ (mem_entries_of_node? hlink (by simp)) target rfl

theorem Linkless.clear (h : t.Linkless) {p : Path} (hp : Path.Proper p) : t.Clear p :=
  ⟨hp, fun q target _ => h q target⟩

theorem Linkless.set_file
    (h : t.Linkless) (p : Path) (bytes : List UInt8) (age : Age) :
    (t.set p (.file bytes age)).Linkless := by
  intro q target
  rw [node?_set]
  split
  · simp
  split
  · simp
  · exact h q target

/-- A path leads to a place whose names are proper, whatever stands on the way. -/
theorem proper_of_resolve
    {directory p : Path} {s : String} (h : t.resolve directory s = .ok p) : Path.Proper p := by
  unfold resolve at h
  split at h
  · simp at h
  dsimp only at h
  split at h
  · simp at h
  · injection h with h
    exact h ▸ Path.proper_normalize _

theorem Linkless.expandWith_eq
    (h : t.Linkless) (enter : Path → Path → String → Path × Bool) (place : Path)
    (names : List String) :
    t.expandWith enter place names = (names.foldl Path.follow place, false) := by
  fun_induction expandWith t enter place names with
  | case1 => rfl
  | case2 _ _ _ hidle ih => rw [ih, List.foldl_cons, Path.follow, if_pos hidle]
  | case3 _ _ _ ih => rw [ih]; rfl
  | case4 _ _ _ _ _ _ target hlink
  | case5 _ _ _ _ _ _ target hlink => exact absurd hlink (h _ target)
  | case6 _ _ _ hidle hback _ _ ih =>
      rw [ih, List.foldl_cons, Path.follow, if_neg hidle, if_neg (by simpa using hback)]

theorem Linkless.expand_eq
    (h : t.Linkless) (fuel : Nat) (pending : List Path) (place : Path) (names : List String) :
    t.expand fuel pending place names = (names.foldl Path.follow place, false) := by
  cases fuel <;> exact h.expandWith_eq _ _ _

/-- Without links a path is followed by its names alone. -/
theorem Linkless.resolve_eq (h : t.Linkless) (directory : Path) (s : String) :
    t.resolve directory s =
      if s.toList.contains '\x00' then .error .zeroCharacter
      else
        .ok (Path.normalize
          ((t.start directory s).2.foldl Path.follow (t.start directory s).1)) := by
  unfold resolve
  split
  · rfl
  dsimp only
  rw [h.expand_eq]
  split
  next hloop =>
    rw [(h.clear (Path.proper_normalize _)).follow_eq] at hloop
    split at hloop
    · simp at hloop
    · exact absurd hloop (straight_ne_tooManyLinks _ _)
  · rfl

end FileTree
end AbapLayout
