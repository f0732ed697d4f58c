import Mathlib.Data.String.Basic
import ProcessorBench.Proofs.Workspaces

/-!
# Several workspaces

Workspaces that are there at the same time are sites in the tree as it was before the first of them. They are at
different places, none of them below another (`Site.apart`), so that what is changed in one of them leaves the others
as they are (`Site.Holds.put_apart`). Since all names of workspaces are equally long, so are their paths
(`Workspace.reserveAs_sibling`).
-/

namespace ProcessorBench

namespace Site

variable {s s' : Site} {d : Disk} {t u : FileTree}

/-- Sites at different places are not below each other. -/
theorem apart (base : s.base = s'.base) (other : s.location ≠ s'.location) :
    ¬ s.location <+: s'.location := by
  intro above
  rcases List.prefix_concat_iff.mp above with same | shorter
  · exact other same
  · obtain ⟨rest, split⟩ := shorter
    have isDir := s'.isDir
    rw [← split, FileTree.at?_append, ← base] at isDir
    have free : s.base.at? s.location = none := s.free
    rw [free] at isDir
    cases isDir

/-- **What is changed in one workspace** leaves another one as it is. -/
theorem Holds.put_apart (holds : s.Holds d t) (base : s'.base = s.base)
    (other : s'.location ≠ s.location) {x : Option FileTree} (wf : ∀ u, x = some u → u.WellFormed) :
    s.Holds (d.put x s'.location) t := by
  have kept : s'.base.KeptIn d.tree := base ▸ holds.kept
  obtain ⟨entries, isDir⟩ := s'.exists_dir kept
  refine ⟨base ▸ kept.put s'.free isDir x, ?_, holds.isDir, ?_⟩
  · rw [Disk.put_tree, FileTree.at?_put_of_apart (apart base other) (apart base.symm other.symm)]
    exact holds.has
  · exact holds.wellFormed.put s'.ends.named wf s'.here

/-- What is on a disk after something has been put at a site: what is in the site, and what has been elsewhere. -/
theorem isSome_at?_put (s : Site) (kept : s.base.KeptIn d.tree) {x : Option FileTree} {l : Location}
    (has : ((d.put x s.location).tree.at? l).isSome = true) :
    (s.base.at? l).isSome = true ∨ (s.location <+: l ∧ x.isSome = true) ∨
      (¬ s.location <+: l ∧ (d.tree.at? l).isSome = true) := by
  obtain ⟨entries, isDir⟩ := s.exists_dir kept
  by_cases below : s.location <+: l
  · obtain ⟨rest, rfl⟩ := below
    refine .inr (.inl ⟨List.prefix_append _ _, ?_⟩)
    rw [Disk.put_tree, FileTree.at?_append, location, FileTree.at?_put_self isDir] at has
    cases x with
    | none => cases has
    | some u => rfl
  by_cases above : l <+: s.location
  · -- What is above the site was there before it.
    rcases List.prefix_concat_iff.mp above with same | shorter
    · exact absurd (same ▸ List.prefix_refl _) below
    · obtain ⟨rest, split⟩ := shorter
      have there := s.isDir
      rw [← split, FileTree.at?_append] at there
      cases found : s.base.at? l with
      | none =>
        rw [found] at there
        cases there
      | some u => exact .inl rfl
  · rw [Disk.put_tree, FileTree.at?_put_of_apart below above] at has
    exact .inr (.inr ⟨below, has⟩)

end Site

namespace Workspace

section
variable {s₀ : Site} {root : Path} {name : String} {d : Disk}

theorem size_sibling (ends : root.EndsIn s₀.start name) (size : name.utf8ByteSize = s₀.name.utf8ByteSize) :
    root.text.utf8ByteSize = s₀.root.text.utf8ByteSize := by
  rw [ends.text, s₀.ends.text]
  simp only [String.utf8ByteSize_append, size]

theorem possible_sibling (ends : root.EndsIn s₀.start name) (size : name.utf8ByteSize = s₀.name.utf8ByteSize)
    (noZero : '\x00' ∉ name.toList) : Disk.checkPath root = .ok () := by
  obtain ⟨zero, fits, _⟩ := Disk.checkPath_eq_ok.mp s₀.possible
  refine Disk.checkPath_eq_ok.mpr ⟨?_, size_sibling ends size ▸ fits, ?_⟩
  · rw [s₀.ends.text] at zero
    rw [ends.text]
    simp only [String.toList_append, List.mem_append, not_or] at zero ⊢
    exact ⟨zero.1, noZero⟩
  · intro empty
    have absolute := ends.absolute
    simp [Path.isAbsolute, empty] at absolute

/-- The path of a workspace beside another one leads to a name beside it. -/
theorem locate_sibling (ends : root.EndsIn s₀.start name) (size : name.utf8ByteSize = s₀.name.utf8ByteSize)
    (noZero : '\x00' ∉ name.toList) (kept : s₀.base.KeptIn d.tree) :
    d.locate root = .ok (s₀.here ++ [name]) := by
  have fits : name.utf8ByteSize ≤ Disk.nameLimit := size ▸ s₀.fits
  obtain ⟨entries, isDir⟩ := s₀.exists_dir kept
  have led : Disk.follow d.tree [] root.segments = .ok (s₀.here ++ [name]) := by
    rw [ends.segments, Disk.follow_append, Disk.follow_of_keptIn kept s₀.leads]
    show Disk.follow d.tree s₀.here [name] = _
    rw [Disk.follow_cons, Disk.advance_name ends.named isDir, if_neg (not_lt.mpr fits)]
    rfl
  rw [Disk.locate, possible_sibling ends size noZero, Disk.start, if_pos ends.absolute]
  exact led

/-- Whether there is something of the name of a workspace beside another one. -/
theorem exists?_sibling (ends : root.EndsIn s₀.start name) (size : name.utf8ByteSize = s₀.name.utf8ByteSize)
    (noZero : '\x00' ∉ name.toList) (kept : s₀.base.KeptIn d.tree) :
    d.exists? root = (d.tree.at? (s₀.here ++ [name])).isSome := by
  unfold Disk.exists? Disk.lookup
  rw [locate_sibling ends size noZero kept, ok_bind]
  cases d.tree.at? (s₀.here ++ [name]) <;> rfl

/-- The directory of a workspace that can be made beside another one. Its name is another one of the same length. -/
theorem exists_sibling (ends : root.EndsIn s₀.start name) (size : name.utf8ByteSize = s₀.name.utf8ByteSize)
    (noZero : '\x00' ∉ name.toList) (kept : s₀.base.KeptIn d.tree) (free : d.exists? root = false) :
    ∃ s : Site, s.root = root ∧ s.base = s₀.base ∧ s.Twin s₀ ∧ d.locate root = .ok s.location ∧
      d.tree.at? s.location = none := by
  rw [exists?_sibling ends size noZero kept] at free
  have missing : d.tree.at? (s₀.here ++ [name]) = none := by simpa using free
  have unmade : s₀.base.at? (s₀.here ++ [name]) = none := by
    cases has : s₀.base.at? (s₀.here ++ [name]) with
    | none => rfl
    | some u =>
      obtain ⟨v, there, _⟩ := kept _ u has
      rw [missing] at there
      cases there
  have located := locate_sibling ends size noZero kept
  exact ⟨⟨root, s₀.base, s₀.here, name, s₀.start, s₀.entries, ends, possible_sibling ends size noZero, s₀.leads,
    s₀.isDir, size ▸ s₀.fits, unmade⟩, rfl, rfl, size_sibling ends size, located, missing⟩

end

/-- **Reserving a workspace** beside others, under a name that nothing has. -/
theorem reserveAs_sibling {s₀ : Site} {name : String} {h : Host}
    (ends : (named h name).root.EndsIn s₀.start name)
    (size : name.utf8ByteSize = s₀.name.utf8ByteSize) (noZero : '\x00' ∉ name.toList)
    (kept : s₀.base.KeptIn h.disk.tree) (free : h.disk.exists? (named h name).root = false) :
    ∃ s : Site, s.base = s₀.base ∧ s.Twin s₀ ∧ h.disk.tree.at? s.location = none ∧
      (reserveAs name).outcome h =
        (.ok s.workspace, { h with disk := h.disk.put (some (.dir [])) s.location }) := by
  obtain ⟨s, root, base, twin, located, missing⟩ := exists_sibling ends size noZero kept free
  refine ⟨s, base, twin, missing, ?_⟩
  have workspace : s.workspace = named h name := congrArg Workspace.mk root
  rw [reserveAs_outcome, Disk.createDir_run, located, workspace]
  simp only
  rw [missing]

/-! ## Names -/

theorem utf8Size_digitChar : ∀ n < 10, (Nat.digitChar n).utf8Size = 1 := by decide

/-- All names of workspaces are equally long. -/
theorem utf8ByteSize_nameOf (number : Nat) : (nameOf number).utf8ByteSize = 14 := by
  have digit (n : Nat) : (Nat.digitChar (n % 10)).utf8Size = 1 :=
    utf8Size_digitChar _ (Nat.mod_lt _ (by decide))
  have front : "diamond-".utf8ByteSize = 8 := by decide
  rw [nameOf, String.utf8ByteSize_append, front, String.utf8ByteSize_ofList]
  simp [List.range_succ, digit]

theorem noZero_nameOf (number : Nat) : '\x00' ∉ (nameOf number).toList := by
  rw [nameOf, String.toList_append, List.mem_append]
  rintro (zero | zero)
  · revert zero
    decide
  · rw [String.toList_ofList] at zero
    obtain ⟨place, _, same⟩ := List.mem_map.mp zero
    have digit : ∀ n < 10, Nat.digitChar n ≠ '\x00' := by decide
    exact digit _ (Nat.mod_lt _ (by decide)) same

end Workspace

end ProcessorBench
