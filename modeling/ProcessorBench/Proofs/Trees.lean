import Mathlib.Data.String.Basic
import ProcessorBench.FileTree.Basic

/-!
# What is where in a tree of files

`FileTree.put` changes what is at a location and below it, and nothing else. A location is given here as a
directory and a name in it, since that is what it takes for something to be put there. Trees that are
well-formed, with the entries of each directory in order, are the same when nothing is changed.
-/

namespace ProcessorBench

/-! ## Entries of a directory -/

namespace DirEntry

variable {name other : String} {tree : FileTree} {entries : List DirEntry}

/-- Entries in the order of their names, which are all different. -/
def Ascending (entries : List DirEntry) : Prop := (entries.map (·.name)).Pairwise (· < ·)

theorem find?_cons (name : String) (entry : DirEntry) (entries : List DirEntry) :
    find? name (entry :: entries) =
      if entry.name = name then some entry.tree else find? name entries := by
  unfold find?
  rw [List.find?_cons]
  by_cases same : entry.name = name
  · simp [same]
  · simp [same]

/-- A name that has been erased is not found. -/
theorem find?_erase_self (name : String) (entries : List DirEntry) :
    find? name (erase name entries) = none := by
  unfold find? erase
  rw [Option.map_eq_none_iff, List.find?_eq_none]
  intro entry mem
  have kept := (List.mem_filter.mp mem).2
  simpa using kept

/-- Erasing a name leaves all others. -/
theorem find?_erase_of_ne (apart : other ≠ name) (entries : List DirEntry) :
    find? other (erase name entries) = find? other entries := by
  induction entries with
  | nil => rfl
  | cons entry rest ih =>
    unfold erase at ih ⊢
    by_cases same : entry.name = name
    · rw [List.filter_cons_of_neg (by simpa using same), ih, find?_cons, if_neg]
      intro this
      exact apart (this.symm.trans same)
    · rw [List.filter_cons_of_pos (by simpa using same), find?_cons, find?_cons, ih]

/-- What is inserted under a new name is found there. -/
theorem find?_insert_self (missing : find? name entries = none) :
    find? name (insert ⟨name, tree⟩ entries) = some tree := by
  induction entries with
  | nil => rw [insert, find?_cons, if_pos rfl]
  | cons entry rest ih =>
    rw [find?_cons] at missing
    unfold insert
    split
    · rw [find?_cons, if_pos rfl]
    · by_cases same : entry.name = name
      · rw [if_pos same] at missing
        cases missing
      · rw [if_neg same] at missing
        rw [find?_cons, if_neg same, ih missing]

/-- Inserting leaves all other names. -/
theorem find?_insert_of_ne (apart : other ≠ name) (entries : List DirEntry) :
    find? other (insert ⟨name, tree⟩ entries) = find? other entries := by
  induction entries with
  | nil => rw [insert, find?_cons, if_neg (Ne.symm apart)]
  | cons entry rest ih =>
    unfold insert
    split
    · rw [find?_cons, if_neg (Ne.symm apart)]
    · rw [find?_cons, find?_cons, ih]

/-- What is set under a name is found there. -/
theorem find?_set_self (name : String) (tree : Option FileTree) (entries : List DirEntry) :
    find? name (set name tree entries) = tree := by
  cases tree with
  | none => exact find?_erase_self name entries
  | some tree => exact find?_insert_self (find?_erase_self name entries)

/-- Setting leaves all other names. -/
theorem find?_set_of_ne (apart : other ≠ name) (tree : Option FileTree) (entries : List DirEntry) :
    find? other (set name tree entries) = find? other entries := by
  cases tree with
  | none => exact find?_erase_of_ne apart entries
  | some tree => exact (find?_insert_of_ne apart _).trans (find?_erase_of_ne apart entries)

/-- Erasing undoes inserting. -/
theorem erase_insert_self (name : String) (tree : FileTree) (entries : List DirEntry) :
    erase name (insert ⟨name, tree⟩ entries) = erase name entries := by
  induction entries with
  | nil => simp [insert, erase]
  | cons entry rest ih =>
    unfold insert
    split
    · unfold erase
      rw [List.filter_cons_of_neg (by simp)]
    · unfold erase at ih ⊢
      rw [List.filter_cons, List.filter_cons, ih]

theorem erase_erase_self (name : String) (entries : List DirEntry) :
    erase name (erase name entries) = erase name entries := by
  simp [erase]

/-- Only what is put last counts. -/
theorem set_set (name : String) (first last : Option FileTree) (entries : List DirEntry) :
    set name last (set name first entries) = set name last entries := by
  have erased : erase name (set name first entries) = erase name entries := by
    cases first with
    | none => exact erase_erase_self name entries
    | some tree => exact (erase_insert_self name tree _).trans (erase_erase_self name entries)
  cases last with
  | none => exact erased
  | some tree => exact congrArg (insert ⟨name, tree⟩) erased

/-- Erasing a name that is not there changes nothing. -/
theorem erase_eq_self (missing : find? name entries = none) : erase name entries = entries := by
  unfold find? at missing
  rw [Option.map_eq_none_iff, List.find?_eq_none] at missing
  exact List.filter_eq_self.mpr fun entry mem => by simpa using missing entry mem

/-- Naming again what a name already has changes nothing. -/
theorem set_self (ascending : Ascending entries) (has : find? name entries = some tree) :
    set name (some tree) entries = entries := by
  induction entries with
  | nil => cases has
  | cons entry rest ih =>
    obtain ⟨name', tree'⟩ := entry
    obtain ⟨first, ascending⟩ := List.pairwise_cons.mp ascending
    rw [find?_cons] at has
    by_cases same : name' = name
    · subst same
      rw [if_pos rfl] at has
      cases has
      have missing : find? name' rest = none := by
        unfold find?
        rw [Option.map_eq_none_iff, List.find?_eq_none]
        intro entry mem
        have less := first entry.name (List.mem_map_of_mem mem)
        simpa using ne_of_gt less
      have erased : erase name' (⟨name', tree'⟩ :: rest) = rest := by
        have rest' := erase_eq_self missing
        unfold erase at rest' ⊢
        rw [List.filter_cons_of_neg (by simp), rest']
      rw [set, erased]
      -- What follows has greater names, so that the entry goes to the front again.
      cases rest with
      | nil => rfl
      | cons next rest => rw [insert, if_pos (first next.name (by simp))]
    · rw [if_neg same] at has
      have later : name' < name := by
        obtain ⟨entry, found, _⟩ := Option.map_eq_some_iff.mp has
        have named := List.find?_some found
        simp only [decide_eq_true_eq] at named
        rw [← named]
        exact first entry.name (List.mem_map_of_mem (List.mem_of_find?_eq_some found))
      have kept := ih ascending has
      have erased : erase name (⟨name', tree'⟩ :: rest) = ⟨name', tree'⟩ :: erase name rest := by
        unfold erase
        rw [List.filter_cons_of_pos (by simpa using same)]
      rw [set] at kept ⊢
      rw [erased, insert, if_neg (not_lt_of_gt later), kept]

/-- Entries after inserting are the new one and those before. -/
theorem mem_insert {entry inserted : DirEntry} :
    entry ∈ insert inserted entries ↔ entry = inserted ∨ entry ∈ entries := by
  induction entries with
  | nil => simp [insert]
  | cons first rest ih =>
    unfold insert
    split
    · rw [List.mem_cons]
    · rw [List.mem_cons, List.mem_cons, ih]
      exact or_left_comm

/-- Entries after setting are the new one and some of those before. -/
theorem mem_set {entry : DirEntry} {tree : Option FileTree} :
    entry ∈ set name tree entries →
      (entry.name = name ∧ tree = some entry.tree) ∨ entry ∈ entries := by
  intro mem
  cases tree with
  | none => exact .inr (List.mem_filter.mp mem).1
  | some tree =>
    rcases mem_insert.mp mem with rfl | mem
    · exact .inl ⟨rfl, rfl⟩
    · exact .inr (List.mem_filter.mp mem).1

/-- Erasing leaves the entries in order. -/
theorem Ascending.erase (ascending : Ascending entries) (name : String) :
    Ascending (erase name entries) := by
  unfold Ascending DirEntry.erase at *
  rw [List.pairwise_map] at ascending ⊢
  exact ascending.filter _

/-- Inserting under a new name leaves the entries in order. -/
theorem Ascending.insert (ascending : Ascending entries) (missing : ∀ e ∈ entries, e.name ≠ name) :
    Ascending (insert ⟨name, tree⟩ entries) := by
  unfold Ascending at *
  rw [List.pairwise_map] at ascending ⊢
  induction entries with
  | nil => exact List.pairwise_singleton _ _
  | cons first rest ih =>
    obtain ⟨less, ascending⟩ := List.pairwise_cons.mp ascending
    obtain ⟨apart, missing⟩ := List.forall_mem_cons.mp missing
    unfold DirEntry.insert
    split
    next before =>
      refine List.pairwise_cons.mpr ⟨fun e mem => ?_, List.pairwise_cons.mpr ⟨less, ascending⟩⟩
      rcases List.mem_cons.mp mem with rfl | mem
      · exact before
      · exact lt_trans before (less e mem)
    next after =>
      have after : first.name < name := lt_of_le_of_ne (not_lt.mp after) apart
      refine List.pairwise_cons.mpr ⟨fun e mem => ?_, ih ascending missing⟩
      rcases mem_insert.mp mem with rfl | mem
      · exact after
      · exact less e mem

/-- Setting leaves the entries in order. -/
theorem Ascending.set (ascending : Ascending entries) (name : String) (tree : Option FileTree) :
    Ascending (set name tree entries) := by
  cases tree with
  | none => exact ascending.erase name
  | some tree =>
    refine (ascending.erase name).insert fun e mem => ?_
    simpa using (List.mem_filter.mp mem).2

/-- What is found is one of the entries. -/
theorem mem_of_find? (has : find? name entries = some tree) : ⟨name, tree⟩ ∈ entries := by
  obtain ⟨⟨name', tree'⟩, found, rfl⟩ := Option.map_eq_some_iff.mp has
  have named := List.find?_some found
  simp only [decide_eq_true_eq] at named
  subst named
  exact List.mem_of_find?_eq_some found

end DirEntry

/-! ## Locations -/

namespace FileTree

variable {t u : FileTree} {x : Option FileTree} {here l rest : Location} {name : String}
  {entries : List DirEntry}

theorem at?_nil (t : FileTree) : t.at? [] = some t := by
  cases t <;> rfl

/-- Below a directory the first name leads on. -/
theorem at?_cons_dir (entries : List DirEntry) (name : String) (rest : Location) :
    (FileTree.dir entries).at? (name :: rest) = (DirEntry.find? name entries).bind (·.at? rest) :=
  rfl

/-- Locations are followed one after the other. -/
theorem at?_append (t : FileTree) (l l' : Location) :
    t.at? (l ++ l') = (t.at? l).bind (·.at? l') := by
  induction l generalizing t with
  | nil => rw [List.nil_append, at?_nil, Option.bind_some]
  | cons name l ih =>
    cases t with
    | file => rfl
    | dir entries =>
      rw [List.cons_append, at?_cons_dir, at?_cons_dir]
      cases DirEntry.find? name entries with
      | none => rfl
      | some below => exact ih below

/-- The last name is looked up in the directory that the others lead to. -/
theorem at?_concat (has : t.at? here = some (.dir entries)) (name : String) :
    t.at? (here ++ [name]) = DirEntry.find? name entries := by
  rw [at?_append, has, Option.bind_some, at?_cons_dir]
  cases DirEntry.find? name entries with
  | none => rfl
  | some below => exact at?_nil below

/-- What is below something is below a directory. -/
theorem exists_dir_of_at?_append (has : t.at? (l ++ name :: rest) = some u) :
    ∃ entries, t.at? l = some (.dir entries) := by
  rw [at?_append] at has
  obtain ⟨below, found, has⟩ := Option.bind_eq_some_iff.mp has
  cases below with
  | file => cases has
  | dir entries => exact ⟨entries, found⟩

theorem put_cons_dir (x : Option FileTree) (entries : List DirEntry) (name next : String)
    (rest : Location) : put x (.dir entries) (name :: next :: rest) =
      match DirEntry.find? name entries with
      | some below => .dir (DirEntry.set name (some (put x below (next :: rest))) entries)
      | none => .dir entries := rfl

/-- Something below a directory is put there by putting it into what is there. -/
theorem put_append (has : t.at? l = some u) (nonempty : l ≠ []) (below : rest ≠ []) :
    t.put x (l ++ rest) = t.put (some (u.put x rest)) l := by
  induction l generalizing t with
  | nil => exact absurd rfl nonempty
  | cons name l ih =>
    cases t with
    | file => cases has
    | dir entries =>
      rw [at?_cons_dir] at has
      obtain ⟨next, found, has⟩ := Option.bind_eq_some_iff.mp has
      obtain ⟨first, rest, rfl⟩ := List.exists_cons_of_ne_nil below
      cases l with
      | nil =>
        rw [at?_nil] at has
        cases has
        rw [List.cons_append, List.nil_append, put_cons_dir, found]
        rfl
      | cons second l =>
        rw [List.cons_append, List.cons_append, put_cons_dir, put_cons_dir, found]
        simp only
        rw [← List.cons_append, ih has (List.cons_ne_nil _ _)]

/-- A directory in which something is put under a name. -/
theorem at?_put_parent (has : t.at? here = some (.dir entries)) (x : Option FileTree)
    (name : String) :
    (t.put x (here ++ [name])).at? here = some (.dir (DirEntry.set name x entries)) := by
  induction here generalizing t with
  | nil =>
    rw [at?_nil] at has
    cases has
    exact at?_nil _
  | cons first here ih =>
    cases t with
    | file => cases has
    | dir entries' =>
      rw [at?_cons_dir] at has
      obtain ⟨next, found, has⟩ := Option.bind_eq_some_iff.mp has
      obtain ⟨second, rest, split⟩ := List.exists_cons_of_ne_nil
        (List.append_ne_nil_of_right_ne_nil here (List.cons_ne_nil name []))
      rw [List.cons_append, split, put_cons_dir, found, ← split]
      simp only
      rw [at?_cons_dir, DirEntry.find?_set_self, Option.bind_some]
      exact ih has

/-- **What is put somewhere** is there afterwards. -/
theorem at?_put_self (has : t.at? here = some (.dir entries)) (x : Option FileTree)
    (name : String) : (t.put x (here ++ [name])).at? (here ++ [name]) = x := by
  rw [at?_concat (at?_put_parent has x name), DirEntry.find?_set_self]

/-- Below a tree that has been put stands what is in it. -/
theorem at?_put_below (has : t.at? here = some (.dir entries)) (name : String) (u : FileTree)
    (rest : Location) :
    (t.put (some u) (here ++ [name])).at? (here ++ [name] ++ rest) = u.at? rest := by
  rw [at?_append, at?_put_self has, Option.bind_some]

/-- **What is elsewhere** is not touched. -/
theorem at?_put_of_apart {loc : Location} (apart : ¬ loc <+: l) (apart' : ¬ l <+: loc) :
    (t.put x loc).at? l = t.at? l := by
  induction loc generalizing t l with
  | nil => exact absurd (List.nil_prefix) apart
  | cons first loc ih =>
    cases l with
    | nil => exact absurd (List.nil_prefix) apart'
    | cons first' l =>
      cases t with
      | file => cases loc <;> rfl
      | dir entries =>
        by_cases same : first' = first
        · subst same
          have apart : ¬ loc <+: l := fun h => apart (List.cons_prefix_cons.mpr ⟨rfl, h⟩)
          have apart' : ¬ l <+: loc := fun h => apart' (List.cons_prefix_cons.mpr ⟨rfl, h⟩)
          cases loc with
          | nil => exact absurd List.nil_prefix apart
          | cons second loc =>
            rw [put_cons_dir]
            split
            next below found =>
              rw [at?_cons_dir, at?_cons_dir, DirEntry.find?_set_self, found, Option.bind_some,
                Option.bind_some]
              exact ih apart apart'
            next => rfl
        · cases loc with
          | nil =>
            show (FileTree.dir (DirEntry.set first x entries)).at? _ = _
            rw [at?_cons_dir, at?_cons_dir, DirEntry.find?_set_of_ne same]
          | cons second loc =>
            rw [put_cons_dir]
            split
            next below found =>
              rw [at?_cons_dir, at?_cons_dir, DirEntry.find?_set_of_ne same]
            next => rfl

/-- What is put somewhere leaves the directories on the way to it directories. -/
theorem exists_dir_put_of_prefix (has : t.at? l = some (.dir entries)) (first : String)
    (rest : Location) : ∃ entries', (t.put x (l ++ first :: rest)).at? l = some (.dir entries') := by
  induction l generalizing t with
  | nil =>
    rw [at?_nil] at has
    cases has
    cases rest with
    | nil => exact ⟨_, at?_nil _⟩
    | cons second rest =>
      rw [List.nil_append, put_cons_dir]
      split <;> exact ⟨_, at?_nil _⟩
  | cons name l ih =>
    cases t with
    | file => cases has
    | dir entries' =>
      rw [at?_cons_dir] at has
      obtain ⟨next, found, has⟩ := Option.bind_eq_some_iff.mp has
      obtain ⟨second, rest', split⟩ := List.exists_cons_of_ne_nil
        (List.append_ne_nil_of_right_ne_nil l (List.cons_ne_nil first rest))
      rw [List.cons_append, split, put_cons_dir, found, ← split]
      simp only
      rw [at?_cons_dir, DirEntry.find?_set_self, Option.bind_some]
      exact ih has

/-- What is at a location after something has been put in a directory: a part of it, a directory above it, or what
was there before. -/
theorem at?_put_cases (above : t.at? here = some (.dir entries)) (x : Option FileTree) (name : String)
    (l : Location) :
    (∃ rest, l = here ++ [name] ++ rest ∧ (t.put x (here ++ [name])).at? l = x.bind (·.at? rest)) ∨
      (∃ before after, t.at? l = some (.dir before) ∧ (t.put x (here ++ [name])).at? l = some (.dir after)) ∨
      (l ≠ here ++ [name] ∧ (t.put x (here ++ [name])).at? l = t.at? l) := by
  by_cases below : here ++ [name] <+: l
  · obtain ⟨rest, rfl⟩ := below
    exact .inl ⟨rest, rfl, by rw [at?_append, at?_put_self above]⟩
  have other : l ≠ here ++ [name] := by
    rintro rfl
    exact below List.prefix_rfl
  by_cases shorter : l <+: here ++ [name]
  · obtain ⟨rest, rfl⟩ := (List.prefix_concat_iff.mp shorter).resolve_left other
    obtain ⟨before, has⟩ : ∃ before, t.at? l = some (.dir before) := by
      cases rest with
      | nil => exact ⟨entries, by rw [← above, List.append_nil]⟩
      | cons first rest => exact exists_dir_of_at?_append above
    obtain ⟨first, more, split⟩ := List.exists_cons_of_ne_nil (List.append_ne_nil_of_right_ne_nil rest
      (List.cons_ne_nil name []))
    obtain ⟨after, there⟩ := exists_dir_put_of_prefix (x := x) has first more
    rw [← split, ← List.append_assoc] at there
    exact .inr (.inl ⟨before, after, has, there⟩)
  · exact .inr (.inr ⟨other, at?_put_of_apart below shorter⟩)

/-- Only what is put somewhere last counts. -/
theorem put_put (t : FileTree) (x y : Option FileTree) (loc : Location) :
    (t.put x loc).put y loc = t.put y loc := by
  induction loc generalizing t with
  | nil => cases t <;> rfl
  | cons first loc ih =>
    cases t with
    | file => cases loc <;> rfl
    | dir entries =>
      cases loc with
      | nil => exact congrArg FileTree.dir (DirEntry.set_set first x y entries)
      | cons second loc =>
        rw [put_cons_dir, put_cons_dir]
        cases found : DirEntry.find? first entries with
        | none =>
          simp only
          rw [put_cons_dir, found]
        | some below =>
          simp only
          rw [put_cons_dir, DirEntry.find?_set_self]
          simp only
          rw [DirEntry.set_set, ih]

/-! ## Well-formed trees -/

/-- Entries are well formed if each of them is. -/
theorem areWellFormed_iff {entries : List DirEntry} : areWellFormed entries = true ↔
    ∀ e ∈ entries, Path.isName e.name = true ∧ e.tree.WellFormed := by
  induction entries with
  | nil => simp [areWellFormed]
  | cons entry rest ih =>
    obtain ⟨name, tree⟩ := entry
    rw [areWellFormed, Bool.and_eq_true, Bool.and_eq_true, ih, List.forall_mem_cons, WellFormed]

/-- A directory is well formed if its entries are in order, with names, and well formed. -/
theorem wellFormed_dir_iff {entries : List DirEntry} : (FileTree.dir entries).WellFormed ↔
    DirEntry.Ascending entries ∧ ∀ e ∈ entries, Path.isName e.name = true ∧ e.tree.WellFormed := by
  rw [WellFormed, isWellFormed, Bool.and_eq_true, areWellFormed_iff, decide_eq_true_eq]
  rfl

theorem wellFormed_file (content : Bytes) (executable : Bool) :
    (FileTree.file content executable).WellFormed := rfl

theorem wellFormed_empty : (FileTree.dir []).WellFormed := rfl

/-- What is put somewhere is well-formed if it is a well-formed tree. -/
theorem wellFormed_some (wf : u.WellFormed) : ∀ v, some u = some v → v.WellFormed := by
  rintro _ ⟨⟩
  exact wf

/-- What stands in a well-formed tree is well formed. -/
theorem WellFormed.at? (wf : t.WellFormed) (has : t.at? l = some u) : u.WellFormed := by
  induction l generalizing t with
  | nil =>
    rw [at?_nil] at has
    cases has
    exact wf
  | cons name l ih =>
    cases t with
    | file => cases has
    | dir entries =>
      rw [at?_cons_dir] at has
      obtain ⟨below, found, has⟩ := Option.bind_eq_some_iff.mp has
      have entry := (wellFormed_dir_iff.mp wf).2 _ (DirEntry.mem_of_find? found)
      exact ih entry.2 has

/-- Setting an entry under a name leaves a directory well formed. -/
theorem wellFormed_dir_set (wf : (FileTree.dir entries).WellFormed) (named : Path.isName name = true)
    (wf' : ∀ u, x = some u → u.WellFormed) :
    (FileTree.dir (DirEntry.set name x entries)).WellFormed := by
  obtain ⟨ascending, each⟩ := wellFormed_dir_iff.mp wf
  refine wellFormed_dir_iff.mpr ⟨ascending.set name x, fun e mem => ?_⟩
  rcases DirEntry.mem_set mem with ⟨rfl, given⟩ | mem
  · exact ⟨named, wf' _ given⟩
  · exact each e mem

/-- A well-formed tree stays so when something well-formed is put under a name. -/
theorem WellFormed.put (wf : t.WellFormed) (named : Path.isName name = true)
    (wf' : ∀ u, x = some u → u.WellFormed) (here : Location) :
    (t.put x (here ++ [name])).WellFormed := by
  induction here generalizing t with
  | nil =>
    cases t with
    | file => exact wf
    | dir entries => exact wellFormed_dir_set wf named wf'
  | cons first here ih =>
    cases t with
    | file =>
      rw [List.cons_append]
      exact wf
    | dir entries =>
      obtain ⟨second, rest, split⟩ := List.exists_cons_of_ne_nil
        (List.append_ne_nil_of_right_ne_nil here (List.cons_ne_nil name []))
      rw [List.cons_append, split, put_cons_dir, ← split]
      split
      next below found =>
        have entry := (wellFormed_dir_iff.mp wf).2 _ (DirEntry.mem_of_find? found)
        exact wellFormed_dir_set wf entry.1 (wellFormed_some (ih entry.2))
      next => exact wf

/-- **Putting back** what is somewhere already changes nothing. -/
theorem put_self (wf : t.WellFormed) (has : t.at? l = some u) (nonempty : l ≠ []) :
    t.put (some u) l = t := by
  induction l generalizing t with
  | nil => exact absurd rfl nonempty
  | cons name l ih =>
    cases t with
    | file => cases has
    | dir entries =>
      have ascending := (wellFormed_dir_iff.mp wf).1
      rw [at?_cons_dir] at has
      obtain ⟨below, found, has⟩ := Option.bind_eq_some_iff.mp has
      cases l with
      | nil =>
        rw [at?_nil] at has
        cases has
        exact congrArg FileTree.dir (DirEntry.set_self ascending found)
      | cons next l =>
        have entry := (wellFormed_dir_iff.mp wf).2 _ (DirEntry.mem_of_find? found)
        rw [put_cons_dir, found]
        simp only
        rw [ih entry.2 has (List.cons_ne_nil _ _), DirEntry.set_self ascending found]

/-- Removing what is not there changes nothing. -/
theorem put_none_of_missing (wf : t.WellFormed) (missing : t.at? l = none) : t.put none l = t := by
  induction l generalizing t with
  | nil => cases t <;> rfl
  | cons name l ih =>
    cases t with
    | file => cases l <;> rfl
    | dir entries =>
      have ascending := (wellFormed_dir_iff.mp wf).1
      rw [at?_cons_dir] at missing
      cases l with
      | nil =>
        cases found : DirEntry.find? name entries with
        | none => exact congrArg FileTree.dir (DirEntry.erase_eq_self found)
        | some below =>
          rw [found, Option.bind_some, at?_nil] at missing
          cases missing
      | cons next l =>
        rw [put_cons_dir]
        cases found : DirEntry.find? name entries with
        | none => rfl
        | some below =>
          rw [found, Option.bind_some] at missing
          have entry := (wellFormed_dir_iff.mp wf).2 _ (DirEntry.mem_of_find? found)
          simp only
          -- The entry is set to what it was, and goes back to its place since the names ascend.
          rw [ih entry.2 missing, DirEntry.set_self ascending found]

end FileTree

end ProcessorBench
