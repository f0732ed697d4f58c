import ProcessorBench.Proofs.UnitNames

/-!
# Which extension a name loses

The names on the way to a unit are put together with points before an extension is left out, so what is left out is
an ending of the whole text (`UnitName.ofNames?_eq`). Where the last name has the extension, this is it. But the point
in front of an ending may also be one that has been put between two names: the file `java` in the directory `a` is
named `a`, as `a.java` is. An extension that takes in the last name in this way (`UnitName.Swallows`) is the only one
that a name loses without having it (`UnitName.ofPath?_stem_iff`).
-/

namespace ProcessorBench

namespace Text

/-- Of two endings of a text, the longer one ends in the shorter one. -/
theorem exists_append_of_length_le {front back front' back' : String} (same : front ++ back = front' ++ back')
    (shorter : back.length ≤ back'.length) : ∃ between, back' = between ++ back := by
  have ends : back.toList <:+ (front ++ back).toList := by
    rw [String.toList_append]
    exact List.suffix_append _ _
  have ends' : back'.toList <:+ (front ++ back).toList := by
    rw [same, String.toList_append]
    exact List.suffix_append _ _
  rw [← String.length_toList, ← String.length_toList] at shorter
  obtain ⟨between, split⟩ := List.suffix_of_suffix_length_le ends ends' shorter
  refine ⟨String.ofList between, ?_⟩
  rw [← String.toList_inj, ← split]
  simp

/-- Names that are put together end in the last of them. -/
theorem exists_intercalate_concat (between : String) (front : List String) (last : String) :
    ∃ above, between.intercalate (front ++ [last]) = above ++ last := by
  have split := intercalate_concat_append between front "" last
  rw [String.empty_append] at split
  exact ⟨_, split⟩

end Text

namespace UnitName

variable {extension last name stem above : String} {front names : List String} {place : Path}

/-- A text less an extension with a point before it, where it ends in one, and else the text itself. -/
def Stem (extension name stem : String) : Prop :=
  name = stem ++ "." ++ extension ∨ name = stem ∧ ∀ other, name ≠ other ++ "." ++ extension

/-- Nothing has no name. -/
def named? (name : String) : Option String := if name = "" then none else some name

/-- The names, put together with points, are `above` and the extension, which takes in all of the last name: so its
point stands in front of this name or further up. -/
structure Swallows (extension : String) (front : List String) (last above : String) : Prop where
  dotted : ".".intercalate (front ++ [last]) = above ++ "." ++ extension
  covered : last.length ≤ extension.length

/-- Different names are different as names of files too. -/
theorem named?_inj {a b : String} : named? a = named? b ↔ a = b := by
  unfold named?
  split <;> split <;> simp_all [eq_comm]

/-- How long a name with an extension is. -/
theorem length_pointed (name extension : String) :
    (name ++ "." ++ extension).length = name.length + 1 + extension.length := by
  rw [String.length_append, String.length_append]
  rfl

theorem length_point_append (text : String) : ("." ++ text).length = 1 + text.length := by
  rw [String.length_append]
  rfl

/-- Names with the same extension are different if they are without it. -/
theorem pointed_inj {a b : String} : a ++ "." ++ extension = b ++ "." ++ extension ↔ a = b := by
  rw [String.append_assoc, String.append_assoc]
  exact String.append_left_inj _

/-- Every name has a stem for an extension. -/
theorem exists_stem (extension name : String) : ∃ stem, Stem extension name stem := by
  by_cases ends : ∃ stem, name = stem ++ "." ++ extension
  · obtain ⟨stem, split⟩ := ends
    exact ⟨stem, .inl split⟩
  · exact ⟨name, .inr ⟨rfl, not_exists.mp ends⟩⟩

/-- **What names are put together to loses the extension that it ends in**, and nothing else. -/
theorem ofNames?_eq (left : Stem extension (".".intercalate names) name) :
    ofNames? names extension = named? name := by
  rcases left with dotted | ⟨same, other⟩
  · exact ofNames?_of_dotted dotted
  · have whole : (dropEnd? extension.toList (".".intercalate names).toList).bind (dropEnd? ['.']) = none := by
      refine Option.eq_none_iff_forall_ne_some.mpr fun front cut => ?_
      obtain ⟨pointed, cut, cut'⟩ := Option.bind_eq_some_iff.mp cut
      apply other (String.ofList front)
      rw [← String.toList_inj, eq_append_of_dropEnd? cut, eq_append_of_dropEnd? cut']
      simp
    unfold ofNames?
    simp only
    rw [whole, Option.elim_none, same]
    rfl

/-- The extension of the last name is lost, unless one is that takes in the last name. -/
theorem stem_eq_iff (ends : Stem extension last stem)
    (left : Stem extension (".".intercalate (front ++ [last])) name) :
    name = ".".intercalate (front ++ [stem]) ↔ ¬ ∃ above, Swallows extension front last above := by
  rcases ends with rfl | ⟨rfl, other⟩
  · have dotted := intercalate_concat_dotted front stem extension
    refine iff_of_true ?_ ?_
    · rcases left with dotted' | ⟨_, none⟩
      · exact pointed_inj.mp (dotted'.symm.trans dotted)
      · exact absurd dotted (none _)
    · rintro ⟨above, -, covered⟩
      rw [length_pointed] at covered
      omega
  · rcases left with dotted | ⟨same, none⟩
    · refine iff_of_false (fun same => ?_) (not_not.mpr ⟨name, dotted, ?_⟩)
      · have lengths := congrArg String.length dotted
        rw [← same, length_pointed] at lengths
        omega
      · -- A shorter extension would be one that the last name has.
        by_contra longer
        obtain ⟨above, split⟩ := Text.exists_intercalate_concat "." front last
        have endings : name ++ ("." ++ extension) = above ++ last := by
          rw [← String.append_assoc, ← dotted, split]
        have pointed : ("." ++ extension).length ≤ last.length := by
          rw [length_point_append]
          omega
        obtain ⟨between, has⟩ := Text.exists_append_of_length_le endings pointed
        rw [← String.append_assoc] at has
        exact other between has
    · refine iff_of_true same.symm ?_
      rintro ⟨above, dotted, -⟩
      exact none above dotted

/-- An extension without points that takes in the last name is this name. -/
theorem exists_swallows_iff (whole : '.' ∉ extension.toList) :
    (∃ above, Swallows extension front last above) ↔ front ≠ [] ∧ last = extension := by
  constructor
  · rintro ⟨above, dotted, covered⟩
    have below : front ≠ [] := by
      rintro rfl
      have lengths := congrArg String.length dotted
      rw [List.nil_append, String.intercalate_singleton, length_pointed] at lengths
      omega
    refine ⟨below, ?_⟩
    rw [String.intercalate_append_of_ne_nil below (List.cons_ne_nil _ _), String.intercalate_singleton] at dotted
    by_contra differs
    rcases Nat.lt_or_eq_of_le covered with shorter | same
    · -- Then the point in front of the last name is one of the extension.
      rw [String.append_assoc] at dotted
      have pointed : ("." ++ last).length ≤ extension.length := by
        rw [length_point_append]
        omega
      obtain ⟨between, has⟩ := Text.exists_append_of_length_le dotted pointed
      exact whole (by simp [has])
    · obtain ⟨between, has⟩ := Text.exists_append_of_length_le dotted covered
      have lengths := congrArg String.length has
      rw [String.length_append, ← same] at lengths
      have empty : between = "" := String.length_eq_zero_iff.mp (by omega)
      rw [empty, String.empty_append] at has
      exact differs has.symm
  · rintro ⟨below, rfl⟩
    refine ⟨".".intercalate front, ?_, Nat.le_refl _⟩
    rw [String.intercalate_append_of_ne_nil below (List.cons_ne_nil _ _), String.intercalate_singleton]

/-- **Which extension a name loses.** The name of the unit at a place is made of the names on the way with points
between them, where the last one loses the extension if it has it and stays whole otherwise, exactly if no extension
takes in the last name. If one does, all of it is lost. An extension without points takes in the last name exactly if it
is the last name, below another. -/
theorem ofPath?_stem_iff (down : place.components = (front ++ [last]).map .normal) :
    (∃ stem, Stem extension last stem ∧
      (ofPath? place extension = named? (".".intercalate (front ++ [stem])) ↔
        ¬ ∃ above, Swallows extension front last above)) ∧
    (∀ above, Swallows extension front last above → ofPath? place extension = named? above) ∧
    ('.' ∉ extension.toList → ((∃ above, Swallows extension front last above) ↔ front ≠ [] ∧ last = extension)) := by
  rw [ofPath?_of_components down]
  obtain ⟨name, left⟩ := exists_stem extension (".".intercalate (front ++ [last]))
  obtain ⟨stem, ends⟩ := exists_stem extension last
  refine ⟨⟨stem, ends, ?_⟩, fun above swallows => ofNames?_eq (.inl swallows.dotted), exists_swallows_iff⟩
  rw [ofNames?_eq left, named?_inj]
  exact stem_eq_iff ends left

/-- A service file, whose name has another ending than the extension. -/
theorem ofPath?_stem_iff_service :
    (⟨"META-INF/services/x.Processor"⟩ : Path).components = (["META-INF", "services"] ++ ["x.Processor"]).map .normal ∧
    (∃ stem, Stem "class" "x.Processor" stem ∧
      (ofPath? ⟨"META-INF/services/x.Processor"⟩ "class" =
          named? (".".intercalate (["META-INF", "services"] ++ [stem])) ↔
        ¬ ∃ above, Swallows "class" ["META-INF", "services"] "x.Processor" above)) ∧
    ((∃ above, Swallows "class" ["META-INF", "services"] "x.Processor" above) ↔
      ["META-INF", "services"] ≠ [] ∧ "x.Processor" = "class") := by
  have down : (⟨"META-INF/services/x.Processor"⟩ : Path).components =
      (["META-INF", "services"] ++ ["x.Processor"]).map .normal := rfl
  exact ⟨down, (ofPath?_stem_iff down).1, (ofPath?_stem_iff down).2.2 (by decide)⟩

/-- **A file may lose an extension that it does not have**: the file `java` in the directory `a` is named `a`. -/
theorem ofPath?_swallowed : (⟨"a/java"⟩ : Path).components = (["a"] ++ ["java"]).map .normal ∧
    (∀ other, "java" ≠ other ++ "." ++ "java") ∧ named? (".".intercalate (["a"] ++ ["java"])) = some "a.java" ∧
    ofPath? ⟨"a/java"⟩ "java" = some "a" := by
  refine ⟨rfl, fun other same => ?_, rfl, rfl⟩
  have lengths := congrArg String.length same
  rw [length_pointed] at lengths
  omega

end UnitName

end ProcessorBench
