import ProcessorBench.Proofs.PrimaryArtifact

/-!
# Names of units and their places

The place of a unit has one step for each segment of its name, and each step goes down along a plain name
(`UnitName.components_of_path?`). So no name leads out of the directory of all units. Going from a name to its place
and back gives the name, and going from a place to its name and back gives the place (`UnitName.places_names`). The
second holds of places without points but for the one in front of the extension, because all other points in a name
stand between segments.
-/

namespace ProcessorBench

namespace Text

variable {sep : Char} {between : String}

/-- Names that are put together with separators come apart again. -/
theorem splitOn_intercalate (single : between.toList = [sep]) {names : List String}
    (whole : ∀ n ∈ names, sep ∉ n.toList) (nonempty : names ≠ []) :
    splitOn sep (between.intercalate names) = names := by
  have cut : parts (· = sep) ([sep].intercalate (names.map String.toList)) = names.map String.toList := by
    refine parts_intercalate (fun piece mem => ?_) (by simpa using nonempty)
    obtain ⟨n, given, rfl⟩ := List.mem_map.mp mem
    exact whole n given
  rw [splitOn, String.toList_intercalate, single, cut, List.map_map]
  simp [Function.comp_def]

/-- What a text is split into puts it together again. -/
theorem intercalate_splitOn (single : between.toList = [sep]) (text : String) :
    between.intercalate (splitOn sep text) = text := by
  rw [← String.toList_inj, String.toList_intercalate, single, splitOn, List.map_map]
  simp [Function.comp_def, intercalate_parts]

/-- A text has at least one piece. -/
theorem splitOn_ne_nil (sep : Char) (text : String) : splitOn sep text ≠ [] := by
  simpa [splitOn] using parts_ne_nil (· = sep) text.toList

/-- What is at the end of the last name is at the end of them all. -/
theorem intercalate_concat_append (between : String) (front : List String) (last ending : String) :
    between.intercalate (front ++ [last ++ ending]) = between.intercalate (front ++ [last]) ++ ending := by
  induction front with
  | nil => simp [String.intercalate_singleton]
  | cons first front ih =>
    obtain ⟨next, more, split⟩ := List.exists_cons_of_ne_nil (List.append_ne_nil_of_right_ne_nil front
      (List.cons_ne_nil last []))
    obtain ⟨next', more', split'⟩ := List.exists_cons_of_ne_nil (List.append_ne_nil_of_right_ne_nil front
      (List.cons_ne_nil (last ++ ending) []))
    rw [split, split'] at ih
    rw [List.cons_append, List.cons_append, split, split', String.intercalate_cons_cons,
      String.intercalate_cons_cons, ih]
    simp only [String.append_assoc]

end Text

/-! ## Steps of a path -/

namespace Path

variable {p : Path} {name : String} {names : List String}

/-- Two texts are the same path if they make the same steps. -/
def Same (p q : Path) : Prop := p.components = q.components

/-- A step that goes down goes along a name. -/
theorem isName_of_mem_components (mem : .normal name ∈ p.components) : isName name = true := by
  rcases List.mem_append.mp mem with leads | follows
  · have start := Option.mem_toList.mp leads
    unfold leading? at start
    split at start
    · cases start
    · split at start <;> cases start
  · obtain ⟨segment, cut, step⟩ := List.mem_filterMap.mp follows
    have whole := Text.not_mem_of_mem_splitOn cut
    unfold Component.ofSegment? at step
    split at step
    · cases step
    next busy =>
      split at step
      · cases step
      next down =>
        cases step
        simp only [Bool.or_eq_true, decide_eq_true_eq, not_or] at busy
        exact isName_iff.mpr ⟨busy.1, busy.2, down, whole⟩

/-- The segments of a path of names are the names. -/
theorem segments_ofNames (named : ∀ n ∈ names, isName n = true) (nonempty : names ≠ []) :
    (ofNames names).segments = names :=
  Text.splitOn_intercalate rfl (fun n mem => (isName_iff.mp (named n mem)).2.2.2) nonempty

/-- A path of names is relative. -/
theorem not_isAbsolute_ofNames (named : ∀ n ∈ names, isName n = true) (nonempty : names ≠ []) :
    (ofNames names).isAbsolute = false := by
  obtain ⟨name, names, rfl⟩ := List.exists_cons_of_ne_nil nonempty
  rw [ofNames_cons]
  exact not_isAbsolute_of_isName (named name List.mem_cons_self) _

/-- The path of some names makes a step for each of them. -/
theorem components_ofNames (named : ∀ n ∈ names, isName n = true) (nonempty : names ≠ []) :
    (ofNames names).components = names.map .normal := by
  have relative := not_isAbsolute_ofNames named nonempty
  have segments := segments_ofNames named nonempty
  have steps : names.filterMap Component.ofSegment? = names.map .normal := by
    rw [← List.filterMap_eq_map]
    exact List.filterMap_congr fun n mem => ofSegment?_of_isName (named n mem)
  have leading : (ofNames names).leading? = none := by
    rw [leading?, relative, segments, if_neg Bool.false_ne_true, if_neg]
    intro first
    exact (isName_iff.mp (named "." (List.mem_of_head? first))).2.1 rfl
  rw [components, leading, segments, steps]
  rfl

/-- A path that only goes down is relative. -/
theorem not_isAbsolute_of_components (down : p.components = names.map .normal) : p.isAbsolute = false := by
  rw [Bool.eq_false_iff]
  intro absolute
  have root : Component.root ∈ p.components := by
    rw [components, leading?, if_pos absolute]
    exact List.mem_append_left _ (List.mem_singleton_self _)
  rw [down, List.mem_map] at root
  obtain ⟨_, _, same⟩ := root
  cases same

end Path

/-! ## Names and places -/

namespace UnitName

variable {unit extension segment last stem : String} {front names : List String} {place : Path}

/-- A plain segment is not empty and has no slash of either kind in it. -/
theorem isPlain_iff : isPlain segment = true ↔
    segment ≠ "" ∧ '/' ∉ segment.toList ∧ '\\' ∉ segment.toList := by
  rw [isPlain, Bool.and_eq_true, decide_eq_true_eq, List.all_eq_true]
  refine and_congr_right fun _ => ⟨fun each => ⟨fun mem => ?_, fun mem => ?_⟩, ?_⟩
  · simpa using each _ mem
  · simpa using each _ mem
  · rintro ⟨slash, backslash⟩ c mem
    simp only [Bool.and_eq_true, decide_eq_true_eq]
    exact ⟨fun same => slash (same ▸ mem), fun same => backslash (same ▸ mem)⟩

/-- The name of a unit is accepted if all its segments are plain, and its place is along the segments. -/
theorem path?_eq_some (split : Text.splitOn '.' unit = front ++ [last]) :
    path? unit extension = some place ↔ (∀ s ∈ front ++ [last], isPlain s = true) ∧
      .ofNames (front ++ [last ++ suffix extension]) = place := by
  unfold path?
  rw [split]
  simp only [Option.ite_none_right_eq_some, Option.some.injEq, List.all_eq_true]
  rw [← Path.ofNames_concat_append]
  rfl

/-- An extension belongs to the last name. -/
theorem intercalate_concat_dotted (front : List String) (stem extension : String) :
    ".".intercalate (front ++ [stem ++ "." ++ extension]) =
      ".".intercalate (front ++ [stem]) ++ "." ++ extension := by
  rw [String.append_assoc, Text.intercalate_concat_append, String.append_assoc]

/-- What the names on the way to a unit say, if the last of them has the extension. -/
theorem ofNames?_concat (extension : String) (nonempty : ".".intercalate (front ++ [stem]) ≠ "") :
    ofNames? (front ++ [stem ++ "." ++ extension]) extension = some (".".intercalate (front ++ [stem])) := by
  rw [ofNames?_of_dotted (intercalate_concat_dotted front stem extension), if_neg nonempty]

theorem mapM_nameOf? (names : List String) : (names.map Path.Component.normal).mapM nameOf? = some names := by
  induction names with
  | nil => rfl
  | cons name names ih =>
    rw [List.map_cons, List.mapM_cons, ih]
    rfl

/-- The name of a place is that of the names that it leads through. -/
theorem ofPath?_of_components (down : place.components = names.map .normal) :
    ofPath? place extension = ofNames? names extension := by
  rw [ofPath?, down, mapM_nameOf?]
  rfl

/-- The suffix of an extension is a point and the extension. -/
theorem suffix_of_ne_empty (given : extension ≠ "") : suffix extension = "." ++ extension := if_neg given

/-- An extension that leaves the name of a file a name. -/
structure IsExtension (extension : String) : Prop where
  nonempty : extension ≠ ""
  slash : '/' ∉ extension.toList
  backslash : '\\' ∉ extension.toList

/-- A name that no system takes for anything but the name of a file or a directory. -/
def IsPlainName (name : String) : Prop := Path.isName name = true ∧ '\\' ∉ name.toList

/-- The name of a unit that has a place is not empty. -/
theorem ne_empty_of_path? (found : path? unit extension = some place) : unit ≠ "" := by
  rintro rfl
  cases found

/-- A suffix has no characters but the point and those of the extension. -/
theorem notMem_suffix {c : Char} (point : c ≠ '.') (whole : c ∉ extension.toList) :
    c ∉ (suffix extension).toList := by
  unfold suffix
  split
  · simp
  · simp [point, whole]

/-- **The place of a unit** makes a step for each segment of its name, along a plain name. -/
theorem components_of_path? (isExtension : IsExtension extension) (found : path? unit extension = some place)
    (split : Text.splitOn '.' unit = front ++ [last]) :
    place.components = (front ++ [last ++ "." ++ extension]).map .normal ∧
      ∀ name ∈ front ++ [last ++ "." ++ extension], IsPlainName name := by
  obtain ⟨plain, rfl⟩ := (path?_eq_some split).mp found
  have plainName (segment : String) (mem : segment ∈ front ++ [last]) (ending : String) (slash : '/' ∉ ending.toList)
      (backslash : '\\' ∉ ending.toList) : IsPlainName (segment ++ ending) := by
    have whole : '.' ∉ segment.toList := Text.not_mem_of_mem_splitOn (split ▸ mem)
    refine ⟨isName_of_isPlain (plain segment mem) whole ending slash, ?_⟩
    rw [String.toList_append, List.mem_append, not_or]
    exact ⟨(isPlain_iff.mp (plain segment mem)).2.2, backslash⟩
  have names : ∀ name ∈ front ++ [last ++ suffix extension], IsPlainName name := by
    rw [List.forall_mem_append, List.forall_mem_singleton]
    refine ⟨fun name mem => ?_, plainName last (List.mem_append_right _ (List.mem_singleton_self _)) _
      (notMem_suffix (by decide) isExtension.slash) (notMem_suffix (by decide) isExtension.backslash)⟩
    have named := plainName name (List.mem_append_left _ mem) "" (by simp) (by simp)
    rwa [String.append_empty] at named
  rw [suffix_of_ne_empty isExtension.nonempty, ← String.append_assoc] at names ⊢
  exact ⟨Path.components_ofNames (fun name mem => (names name mem).1) (by simp), names⟩

/-- The name of the place of a unit is that of the unit. -/
theorem ofPath?_of_path? (isExtension : IsExtension extension) (found : path? unit extension = some place) :
    ofPath? place extension = some unit := by
  obtain ⟨front, last, split⟩ := (List.eq_nil_or_concat' _).resolve_left (Text.splitOn_ne_nil '.' unit)
  have joined : ".".intercalate (front ++ [last]) = unit := by
    rw [← split]
    exact Text.intercalate_splitOn rfl unit
  rw [ofPath?_of_components (components_of_path? isExtension found split).1,
    ofNames?_concat extension (joined ▸ ne_empty_of_path? found), joined]

/-- The place of the name of a place is that place, if the only point in its names is in front of the extension. -/
theorem exists_unit_of_components (isExtension : IsExtension extension)
    (down : place.components = (front ++ [stem ++ "." ++ extension]).map .normal) (nonempty : stem ≠ "")
    (whole : ∀ name ∈ front ++ [stem], '.' ∉ name.toList ∧ '\\' ∉ name.toList) :
    ∃ unit, ofPath? place extension = some unit ∧
      path? unit extension = some (.ofNames (front ++ [stem ++ "." ++ extension])) ∧
      (Path.ofNames (front ++ [stem ++ "." ++ extension])).Same place := by
  have named : ∀ name ∈ front ++ [stem ++ "." ++ extension], Path.isName name = true := fun name mem =>
    Path.isName_of_mem_components (down ▸ List.mem_map_of_mem mem)
  have split : Text.splitOn '.' (".".intercalate (front ++ [stem])) = front ++ [stem] :=
    Text.splitOn_intercalate rfl (fun name mem => (whole name mem).1) (by simp)
  have plain : ∀ name ∈ front ++ [stem], isPlain name = true := by
    intro name mem
    refine isPlain_iff.mpr ⟨?_, ?_, (whole name mem).2⟩
    · rcases List.mem_append.mp mem with above | isLast
      · exact (Path.isName_iff.mp (named name (List.mem_append_left _ above))).1
      · exact List.mem_singleton.mp isLast ▸ nonempty
    · rcases List.mem_append.mp mem with above | isLast
      · exact (Path.isName_iff.mp (named name (List.mem_append_left _ above))).2.2.2
      · have slash := (Path.isName_iff.mp (named _ (List.mem_append_right _ (List.mem_singleton_self _)))).2.2.2
        rw [List.mem_singleton.mp isLast]
        intro there
        exact slash (by simp [there])
  have found : path? (".".intercalate (front ++ [stem])) extension =
      some (.ofNames (front ++ [stem ++ "." ++ extension])) := by
    refine (path?_eq_some split).mpr ⟨plain, ?_⟩
    rw [suffix_of_ne_empty isExtension.nonempty, ← String.append_assoc]
  refine ⟨_, ?_, found, (Path.components_ofNames named (by simp)).trans down.symm⟩
  rw [ofPath?_of_components down, ofNames?_concat extension (ne_empty_of_path? found)]

/-- The suffixes of sources and of classes are extensions. -/
theorem isExtension_of_mem (known : extension ∈ ["java", "class"]) : IsExtension extension := by
  rcases List.mem_cons.mp known with rfl | last
  · exact ⟨by decide, by decide, by decide⟩
  · rw [List.mem_singleton.mp last]
    exact ⟨by decide, by decide, by decide⟩

/-- **Names and places of units are inverse.** The place of a unit is relative and makes a step for each segment of its
name, along the segment itself, where the last one has the extension; none of these names leads anywhere but down.
The name of this place is that of the unit. Conversely, each place along names that have no points, but for the one in
front of the extension of the last, has a name, and the place of this name is the same. -/
theorem places_names (known : extension ∈ ["java", "class"]) :
    (∀ unit place, path? unit extension = some place →
      place.isAbsolute = false ∧
      (∃ front last, Text.splitOn '.' unit = front ++ [last] ∧
        place.components = (front ++ [last ++ "." ++ extension]).map .normal ∧
        ∀ name ∈ front ++ [last ++ "." ++ extension], IsPlainName name) ∧
      ofPath? place extension = some unit) ∧
    ∀ (place : Path) front stem, place.components = (front ++ [stem ++ "." ++ extension]).map .normal →
      stem ≠ "" → (∀ name ∈ front ++ [stem], '.' ∉ name.toList ∧ '\\' ∉ name.toList) →
      ∃ unit place', ofPath? place extension = some unit ∧ path? unit extension = some place' ∧
        place'.Same place := by
  have isExtension := isExtension_of_mem known
  constructor
  · intro unit place found
    obtain ⟨front, last, split⟩ := (List.eq_nil_or_concat' _).resolve_left (Text.splitOn_ne_nil '.' unit)
    obtain ⟨down, plain⟩ := components_of_path? isExtension found split
    exact ⟨Path.not_isAbsolute_of_components down, ⟨front, last, split, down, plain⟩,
      ofPath?_of_path? isExtension found⟩
  · intro place front stem down nonempty whole
    obtain ⟨unit, named, found, same⟩ := exists_unit_of_components isExtension down nonempty whole
    exact ⟨unit, _, named, found, same⟩

/-- A unit in two packages, and its place with more slashes than it takes. -/
theorem places_names_packages : "java" ∈ ["java", "class"] ∧
    path? "com.example.Foo" "java" = some ⟨"com/example/Foo.java"⟩ ∧
    ofPath? ⟨"com/example/Foo.java"⟩ "java" = some "com.example.Foo" ∧
    ∃ unit place', ofPath? ⟨"com//example/./Foo.java"⟩ "java" = some unit ∧ path? unit "java" = some place' ∧
      place'.Same ⟨"com//example/./Foo.java"⟩ := by
  have known : "java" ∈ ["java", "class"] := List.mem_cons_self
  have found : path? "com.example.Foo" "java" = some ⟨"com/example/Foo.java"⟩ := by decide +kernel
  obtain ⟨places, names⟩ := places_names known
  have down : (⟨"com//example/./Foo.java"⟩ : Path).components =
      (["com", "example"] ++ ["Foo" ++ "." ++ "java"]).map .normal := by decide +kernel
  exact ⟨known, found, (places _ _ found).2.2, names _ _ _ down (by decide) (by decide)⟩

end UnitName

end ProcessorBench
