import Mathlib.Data.List.Basic
import ProcessorBench.FileTree.Path
import ProcessorBench.Compilation.UnitName

/-!
# Paths made of names

`Path.EndsIn` says that a path starts at the root and ends with a name. Going on from such a path along names
adds them to its text and to its segments, and leaving out the last of them leads back
(`Path.segments_joinAll`, `Path.parent?_join`). The place of a unit is such a way along names
(`UnitName.exists_names_of_path?`).
-/

namespace ProcessorBench

namespace Text

/-- A break ends one part and begins another. -/
theorem parts_append {isBreak : Char → Bool} {c : Char} (breaks : isBreak c = true)
    (before after : List Char) :
    parts isBreak (before ++ c :: after) = parts isBreak before ++ parts isBreak after := by
  induction before with
  | nil => simp [parts, breaks]
  | cons first before ih =>
    rw [List.cons_append, parts, parts, ih]
    by_cases here : isBreak first = true
    · rw [if_pos here, if_pos here, List.cons_append]
    · rw [if_neg here, if_neg here]
      obtain ⟨part, more, split⟩ := List.exists_cons_of_ne_nil (parts_ne_nil isBreak before)
      rw [split]
      rfl

/-- Text without breaks is one part. -/
theorem parts_of_forall_not {isBreak : Char → Bool} {text : List Char}
    (whole : ∀ c ∈ text, isBreak c = false) : parts isBreak text = [text] := by
  induction text with
  | nil => rfl
  | cons first text ih =>
    obtain ⟨here, whole⟩ := List.forall_mem_cons.mp whole
    rw [parts, if_neg (by simp [here]), ih whole]

/-- The parts of a text hold nothing that it is cut at. -/
theorem forall_not_of_mem_parts {isBreak : Char → Bool} {text part : List Char}
    (mem : part ∈ parts isBreak text) : ∀ c ∈ part, isBreak c = false := by
  induction text generalizing part with
  | nil =>
    rw [parts, List.mem_singleton] at mem
    subst mem
    exact List.forall_mem_nil _
  | cons first text ih =>
    rw [parts] at mem
    obtain ⟨head, more, split⟩ := List.exists_cons_of_ne_nil (parts_ne_nil isBreak text)
    rw [split] at mem ih
    by_cases here : isBreak first = true
    · rw [if_pos here, List.mem_cons] at mem
      rcases mem with rfl | mem
      · exact List.forall_mem_nil _
      · exact ih mem
    · rw [if_neg here] at mem
      rcases List.mem_cons.mp mem with rfl | mem
      · refine List.forall_mem_cons.mpr ⟨Bool.eq_false_iff.mpr here, ih List.mem_cons_self⟩
      · exact ih (List.mem_cons_of_mem _ mem)

/-- A part has no characters but those of the text, in their order. -/
theorem sublist_of_mem_parts {isBreak : Char → Bool} {text part : List Char} (mem : part ∈ parts isBreak text) :
    part.Sublist text := by
  induction text generalizing part with
  | nil =>
    rw [parts, List.mem_singleton] at mem
    rw [mem]
  | cons first text ih =>
    rw [parts] at mem
    split at mem
    · rcases List.mem_cons.mp mem with rfl | mem
      · exact List.nil_sublist _
      · exact (ih mem).cons first
    · obtain ⟨head, more, split⟩ := List.exists_cons_of_ne_nil (parts_ne_nil isBreak text)
      rw [split] at mem ih
      rcases List.mem_cons.mp mem with rfl | mem
      · exact (ih List.mem_cons_self).cons_cons first
      · exact (ih (List.mem_cons_of_mem _ mem)).cons first

/-- A separator ends one piece and begins another. -/
theorem splitOn_append (sep : Char) (before after : String) :
    splitOn sep (before ++ String.singleton sep ++ after) =
      splitOn sep before ++ splitOn sep after := by
  have text : (before ++ String.singleton sep ++ after).toList =
      before.toList ++ sep :: after.toList := by simp
  rw [splitOn, splitOn, splitOn, text, parts_append (by simp), List.map_append]

/-- Text without separators is one piece. -/
theorem splitOn_of_not_mem {sep : Char} {text : String} (whole : sep ∉ text.toList) :
    splitOn sep text = [text] := by
  rw [splitOn, parts_of_forall_not]
  · simp
  · intro c mem
    rw [decide_eq_false_iff_not]
    rintro rfl
    exact whole mem

/-- The parts of a text at a character do not hold the character. -/
theorem not_mem_of_mem_splitOn {sep : Char} {text part : String} (mem : part ∈ splitOn sep text) :
    sep ∉ part.toList := by
  obtain ⟨piece, cut, rfl⟩ := List.mem_map.mp mem
  rw [String.toList_ofList]
  intro there
  have apart := forall_not_of_mem_parts cut sep there
  simp at apart

end Text

namespace Path

variable {p : Path} {start last name : String} {names : List String}

/-- A name is not empty, is none of the two special ones, and has no slash in it. -/
theorem isName_iff : isName name = true ↔
    name ≠ "" ∧ name ≠ "." ∧ name ≠ ".." ∧ '/' ∉ name.toList := by
  simp [isName, and_assoc]

/-- A name leads to what has that name. -/
theorem ofSegment?_of_isName (named : isName name = true) :
    Component.ofSegment? name = some (.normal name) := by
  obtain ⟨nonempty, apart, apart', _⟩ := isName_iff.mp named
  simp [Component.ofSegment?, nonempty, apart, apart']

/-- A name does not lead up. -/
theorem ofSegment?_ne_parent (named : isName name = true) : Component.ofSegment? name ≠ some .parent := by
  rw [ofSegment?_of_isName named]
  nofun

/-- A path from the root that ends with a name. -/
structure EndsIn (p : Path) (start last : String) : Prop where
  text : p.text = start ++ "/" ++ last
  absolute : p.isAbsolute = true
  named : isName last = true

/-- The last segment of a path that ends in a name is that name. -/
theorem EndsIn.segments (ends : p.EndsIn start last) :
    p.segments = Text.splitOn '/' start ++ [last] := by
  rw [Path.segments, ends.text]
  refine (Text.splitOn_append '/' start last).trans ?_
  rw [Text.splitOn_of_not_mem (isName_iff.mp ends.named).2.2.2]

/-- A name is not empty. -/
theorem toList_ne_nil_of_isName (named : isName name = true) : name.toList ≠ [] :=
  fun empty => (isName_iff.mp named).1 (by simpa using empty)

/-- A name does not end in a slash. -/
theorem getLast?_of_isName (named : isName name = true) : name.toList.getLast? ≠ some '/' := by
  intro slash
  have nonempty := toList_ne_nil_of_isName named
  rw [List.getLast?_eq_some_getLast nonempty, Option.some.injEq] at slash
  exact (isName_iff.mp named).2.2.2 (slash ▸ List.getLast_mem nonempty)

/-- What begins with a name is relative. -/
theorem not_isAbsolute_of_isName (named : isName name = true) (rest : String) :
    isAbsolute ⟨name ++ rest⟩ = false := by
  obtain ⟨first, more, split⟩ := List.exists_cons_of_ne_nil (toList_ne_nil_of_isName named)
  have whole := (isName_iff.mp named).2.2.2
  rw [split, List.mem_cons, not_or] at whole
  simp [isAbsolute, split, Ne.symm whole.1]

/-- The text of a path that goes on along a name ends with the name. -/
theorem exists_text_join (p : Path) (name : String) : ∃ front, (p.join ⟨name⟩).text = front ++ name := by
  unfold join
  split
  · exact ⟨"", (String.empty_append).symm⟩
  · split
    · exact ⟨p.text, rfl⟩
    · exact ⟨p.text ++ "/", rfl⟩

/-- A path that goes on along a name does not end with a slash. -/
theorem getLast?_join (named : isName name = true) : (p.join ⟨name⟩).text.toList.getLast? ≠ some '/' := by
  obtain ⟨front, text⟩ := exists_text_join p name
  rw [text, String.toList_append, List.getLast?_append_of_ne_nil _ (toList_ne_nil_of_isName named)]
  exact getLast?_of_isName named

/-- Going on along a path that starts with a name. -/
theorem join_append (nonempty : p.text ≠ "") (ends : p.text.toList.getLast? ≠ some '/')
    (named : isName name = true) (rest : String) : p.join ⟨name ++ rest⟩ = ⟨p.text ++ "/" ++ (name ++ rest)⟩ := by
  rw [join, not_isAbsolute_of_isName named rest, if_neg (by simp), if_neg (by simp [nonempty, ends])]

/-- A name is put behind a path after a slash. -/
theorem join_name (nonempty : p.text ≠ "") (ends : p.text.toList.getLast? ≠ some '/')
    (named : isName name = true) : p.join ⟨name⟩ = ⟨p.text ++ "/" ++ name⟩ := by
  have joined := join_append nonempty ends named ""
  rwa [String.append_empty] at joined

/-- A path that ends in a name is not empty. -/
theorem EndsIn.text_ne_empty (ends : p.EndsIn start last) : p.text ≠ "" := by
  intro empty
  have absolute := ends.absolute
  simp [isAbsolute, empty] at absolute

/-- A path that ends in a name does not end in a slash. -/
theorem EndsIn.getLast?_ne (ends : p.EndsIn start last) : p.text.toList.getLast? ≠ some '/' := by
  rw [ends.text, String.toList_append, List.getLast?_append_of_ne_nil _ (toList_ne_nil_of_isName ends.named)]
  exact getLast?_of_isName ends.named

/-- What begins with a name is put behind it after a slash. -/
theorem EndsIn.join_eq (ends : p.EndsIn start last) (named : isName name = true) (rest : String) :
    p.join ⟨name ++ rest⟩ = ⟨p.text ++ "/" ++ (name ++ rest)⟩ :=
  join_append ends.text_ne_empty ends.getLast?_ne named rest

/-- A name is put behind a path that ends in a name after a slash. -/
theorem EndsIn.join_name (ends : p.EndsIn start last) (named : isName name = true) :
    p.join ⟨name⟩ = ⟨p.text ++ "/" ++ name⟩ := Path.join_name ends.text_ne_empty ends.getLast?_ne named

/-- An absolute path stays absolute when something is put behind it. -/
theorem isAbsolute_append (absolute : p.isAbsolute = true) (rest : String) :
    isAbsolute ⟨p.text ++ rest⟩ = true := by
  unfold isAbsolute at absolute ⊢
  simp only [decide_eq_true_eq] at absolute ⊢
  rw [String.toList_append, List.head?_append, absolute]
  rfl

/-- With a name put behind it, a path ends in that name. -/
theorem EndsIn.join (ends : p.EndsIn start last) (named : isName name = true) :
    (p.join ⟨name⟩).EndsIn p.text name := by
  refine ⟨by rw [ends.join_name named], ?_, named⟩
  rw [ends.join_name named, String.append_assoc]
  exact isAbsolute_append ends.absolute _

/-- A path that ends in a slash is some text and that slash. -/
theorem exists_text_of_slash (slash : p.text.toList.getLast? = some '/') : ∃ front, p.text = front ++ "/" := by
  obtain ⟨front, split⟩ := List.getLast?_eq_some_iff.mp slash
  refine ⟨String.ofList front, ?_⟩
  rw [← String.toList_inj, split]
  simp

/-- What goes on along a name from an absolute path ends with the name. -/
theorem exists_endsIn_join (absolute : p.isAbsolute = true) :
    ∃ start, ∀ name, isName name = true → (p.join ⟨name⟩).EndsIn start name := by
  by_cases slash : p.text.toList.getLast? = some '/'
  · obtain ⟨front, text⟩ := exists_text_of_slash slash
    refine ⟨front, fun name named => ?_⟩
    have relative := not_isAbsolute_of_isName named ""
    rw [String.append_empty] at relative
    have joined : p.join ⟨name⟩ = ⟨p.text ++ name⟩ := by
      rw [Path.join, relative, if_neg (by simp), if_pos (by simp [slash])]
    rw [joined]
    exact ⟨by rw [text], isAbsolute_append absolute name, named⟩
  · refine ⟨p.text, fun name named => ?_⟩
    have nonempty : p.text ≠ "" := by
      intro empty
      simp [isAbsolute, empty] at absolute
    rw [Path.join_name nonempty slash named]
    refine ⟨rfl, ?_, named⟩
    rw [String.append_assoc]
    exact isAbsolute_append absolute _

/-- What is put behind an absolute path gives an absolute one. -/
theorem isAbsolute_join (absolute : p.isAbsolute = true) (next : Path) :
    (p.join next).isAbsolute = true := by
  unfold join
  split
  next given => exact given
  · split
    · exact isAbsolute_append absolute _
    · rw [String.append_assoc]
      exact isAbsolute_append absolute _

/-! ## Going on along several names -/

theorem joinAll_cons (p : Path) (name : String) (names : List String) :
    p.joinAll (name :: names) = (p.join ⟨name⟩).joinAll names := rfl

theorem joinAll_singleton (p : Path) (name : String) : p.joinAll [name] = p.join ⟨name⟩ := rfl

/-- Names can be put behind a path some now and some later. -/
theorem joinAll_append (p : Path) (names more : List String) :
    p.joinAll (names ++ more) = (p.joinAll names).joinAll more := List.foldl_append

/-- A path that ends in a name does so with names put behind it. -/
theorem EndsIn.joinAll (ends : p.EndsIn start last) (named : ∀ n ∈ names, isName n = true) :
    ∃ start' last', (p.joinAll names).EndsIn start' last' := by
  induction names generalizing p start last with
  | nil => exact ⟨start, last, ends⟩
  | cons name names ih =>
    obtain ⟨first, named⟩ := List.forall_mem_cons.mp named
    exact ih (ends.join first) named

/-- **The names that a path goes on along** are its last segments. -/
theorem EndsIn.segments_joinAll (ends : p.EndsIn start last)
    (named : ∀ n ∈ names, isName n = true) : (p.joinAll names).segments = p.segments ++ names := by
  induction names generalizing p start last with
  | nil => exact (List.append_nil _).symm
  | cons name names ih =>
    obtain ⟨first, named⟩ := List.forall_mem_cons.mp named
    rw [joinAll_cons, ih (ends.join first) named, (ends.join first).segments, List.append_assoc]
    rfl

/-- The text of some names, each with a slash before it. -/
def trail : List String → String
  | [] => ""
  | name :: names => "/" ++ name ++ trail names

/-- Names are put behind a path with a slash before each of them. -/
theorem joinAll_eq (nonempty : p.text ≠ "") (ends : p.text.toList.getLast? ≠ some '/')
    (named : ∀ n ∈ names, isName n = true) : p.joinAll names = ⟨p.text ++ trail names⟩ := by
  induction names generalizing p with
  | nil => rw [trail, String.append_empty]; rfl
  | cons name names ih =>
    obtain ⟨first, named⟩ := List.forall_mem_cons.mp named
    have nonempty' : (p.join ⟨name⟩).text ≠ "" := by
      rw [join_name nonempty ends first]
      exact fun empty => (isName_iff.mp first).1 (String.append_eq_empty_iff.mp empty).2
    rw [joinAll_cons, ih nonempty' (getLast?_join first) named, join_name nonempty ends first, trail]
    simp only [String.append_assoc]

/-- Names are put behind a path that ends in a name, with a slash before each of them. -/
theorem EndsIn.joinAll_eq (ends : p.EndsIn start last) (named : ∀ n ∈ names, isName n = true) :
    p.joinAll names = ⟨p.text ++ trail names⟩ := Path.joinAll_eq ends.text_ne_empty ends.getLast?_ne named

/-- The first of several names has no slash before it. -/
theorem ofNames_cons (name : String) (names : List String) :
    ofNames (name :: names) = ⟨name ++ trail names⟩ := by
  induction names generalizing name with
  | nil => rw [ofNames, trail, String.append_empty, String.intercalate_singleton]
  | cons next names ih =>
    have rest := ih next
    rw [ofNames, Path.mk.injEq] at rest ⊢
    rw [String.intercalate_cons_cons, rest, trail]
    simp only [String.append_assoc]

/-- Going on along the path of some names is going on along the names. -/
theorem EndsIn.join_ofNames (ends : p.EndsIn start last) (nonempty : names ≠ [])
    (named : ∀ n ∈ names, isName n = true) : p.join (ofNames names) = p.joinAll names := by
  obtain ⟨name, names, rfl⟩ := List.exists_cons_of_ne_nil nonempty
  have first := named name List.mem_cons_self
  rw [ofNames_cons, ends.join_eq first, ends.joinAll_eq named, trail]
  simp only [String.append_assoc]

/-! ## Leaving out the last name -/

/-- A name is one part. -/
theorem parts_name (named : isName name = true) :
    Text.parts (· = '/') name.toList = [name.toList] := by
  apply Text.parts_of_forall_not
  intro c mem
  rw [decide_eq_false_iff_not]
  rintro rfl
  exact (isName_iff.mp named).2.2.2 mem

/-- Nothing is trimmed behind a segment that is busy. -/
theorem trimmed_concat (segments : List (List Char)) {segment : List Char}
    (busy : isIdle segment = false) : trimmed (segments ++ [segment]) = segments ++ [segment] := by
  rw [trimmed, List.reverse_append, List.reverse_singleton, List.singleton_append,
    List.dropWhile_cons_of_neg (by simp [busy]), List.reverse_cons, List.reverse_reverse]

/-- A name is busy. -/
theorem not_isIdle_of_isName (named : isName name = true) : isIdle name.toList = false := by
  obtain ⟨nonempty, apart, _⟩ := isName_iff.mp named
  have dot : name.toList ≠ ['.'] := fun same => apart (String.toList_inj.mp same)
  simp [isIdle, nonempty, dot]

/-- **Going on along a name** and leaving it out again leads back. -/
theorem EndsIn.parent?_join (ends : p.EndsIn start last) (named : isName name = true) :
    (p.join ⟨name⟩).parent? = some p := by
  obtain ⟨more, whole⟩ : ∃ more, p.text.toList = '/' :: more := by
    have absolute := ends.absolute
    simp only [isAbsolute, decide_eq_true_eq] at absolute
    exact List.head?_eq_some_iff.mp absolute
  -- The parts of the path behind its first slash end with its last name, so that none is left out.
  obtain ⟨front, parts⟩ : ∃ front, Text.parts (· = '/') more = front ++ [last.toList] := by
    have text : p.text.toList = start.toList ++ '/' :: last.toList := by
      rw [ends.text]
      simp
    have cut : Text.parts (· = '/') p.text.toList =
        Text.parts (· = '/') start.toList ++ Text.parts (· = '/') last.toList := by
      rw [text, Text.parts_append (by simp)]
    rw [whole, parts_name ends.named, Text.parts, if_pos (by simp)] at cut
    obtain ⟨first, front, split⟩ := List.exists_cons_of_ne_nil
      (Text.parts_ne_nil (· = '/') start.toList)
    rw [split, List.cons_append] at cut
    exact ⟨front, (List.cons.inj cut).2⟩
  have leading : (p.join ⟨name⟩).splitLeading = (['/'], more ++ '/' :: name.toList) := by
    rw [splitLeading, leading?, if_pos (ends.join named).absolute, ends.join_name named]
    simp [whole]
  have behind : Text.parts (· = '/') (more ++ '/' :: name.toList) =
      Text.parts (· = '/') more ++ [name.toList] := by
    rw [Text.parts_append (by simp), parts_name named]
  have kept : trimmed (Text.parts (· = '/') more) = Text.parts (· = '/') more := by
    rw [parts]
    exact trimmed_concat front (not_isIdle_of_isName ends.named)
  rw [parent?, leading]
  simp only
  rw [behind, trimmed_concat _ (not_isIdle_of_isName named)]
  split
  next none => exact absurd none (by simp)
  next =>
    rw [List.dropLast_concat, kept, Text.intercalate_parts, Option.some.injEq]
    apply congrArg Path.mk
    rw [← String.toList_inj, whole]
    simp

/-- Going on along names and leaving out the last of them leads back to where it was. -/
theorem EndsIn.parent?_joinAll (ends : p.EndsIn start last) (named : ∀ n ∈ names, isName n = true)
    (named' : isName name = true) : (p.joinAll (names ++ [name])).parent? = some (p.joinAll names) := by
  obtain ⟨_, _, ends'⟩ := ends.joinAll named
  rw [joinAll_append]
  exact ends'.parent?_join named'

/-- An ending belongs to the last name. -/
theorem trail_concat_append (names : List String) (name ending : String) :
    trail (names ++ [name]) ++ ending = trail (names ++ [name ++ ending]) := by
  induction names with
  | nil => simp only [List.nil_append, trail, String.append_assoc, String.append_empty]
  | cons first names ih =>
    rw [List.cons_append, List.cons_append, trail, trail, String.append_assoc, ih]

/-- In a path of names an ending belongs to the last one. -/
theorem ofNames_concat_append (names : List String) (name ending : String) :
    (⟨(ofNames (names ++ [name])).text ++ ending⟩ : Path) = ofNames (names ++ [name ++ ending]) := by
  cases names with
  | nil => simp only [List.nil_append, ofNames_cons, trail, String.append_empty]
  | cons first names =>
    simp only [List.cons_append, ofNames_cons, String.append_assoc, trail_concat_append]

end Path

/-! ## The places of units -/

namespace UnitName

variable {unit extension segment : String} {place : Path}

/-- A plain segment is a name with every ending that has no slash in it. -/
theorem isName_of_isPlain (plain : isPlain segment = true) (whole : '.' ∉ segment.toList)
    (ending : String) (whole' : '/' ∉ ending.toList) : Path.isName (segment ++ ending) = true := by
  rw [isPlain, Bool.and_eq_true, decide_eq_true_eq, List.all_eq_true] at plain
  obtain ⟨nonempty, each⟩ := plain
  have nonempty : segment.toList ≠ [] := fun empty => nonempty (by simpa using empty)
  obtain ⟨first, more, split⟩ := List.exists_cons_of_ne_nil nonempty
  have noPoint : first ≠ '.' := by
    rintro rfl
    exact whole (split ▸ List.mem_cons_self)
  have other (text : String) (points : text.toList.head? = none ∨ text.toList.head? = some '.') :
      segment ++ ending ≠ text := by
    intro same
    rw [← same, String.toList_append, split] at points
    rcases points with none | point
    · cases none
    · exact noPoint (Option.some.inj point)
  rw [Path.isName_iff]
  refine ⟨other "" (.inl rfl), other "." (.inr rfl), other ".." (.inr rfl), ?_⟩
  rw [String.toList_append, List.mem_append]
  rintro (mem | mem)
  · have apart := each '/' mem
    simp at apart
  · exact whole' mem

/-- **The place of a unit** is a way along names. -/
theorem exists_names_of_path? (found : path? unit extension = some place)
    (whole : '/' ∉ extension.toList) :
    ∃ names name, place = .ofNames (names ++ [name]) ∧ ∀ n ∈ names ++ [name], Path.isName n = true := by
  unfold path? at found
  simp only [Option.ite_none_right_eq_some, Option.some.injEq] at found
  obtain ⟨plain, rfl⟩ := found
  rw [List.all_eq_true] at plain
  have nonempty : Text.splitOn '.' unit ≠ [] := by
    simpa [Text.splitOn] using Text.parts_ne_nil (· = '.') unit.toList
  have noPoint : ∀ segment ∈ Text.splitOn '.' unit, '.' ∉ segment.toList := fun _ => Text.not_mem_of_mem_splitOn
  have noSlash : '/' ∉ (suffix extension).toList := by
    unfold suffix
    split
    · simp
    · simpa using whole
  obtain ⟨names, last, split⟩ := (List.eq_nil_or_concat' _).resolve_left nonempty
  rw [split] at plain noPoint ⊢
  refine ⟨names, last ++ suffix extension, Path.ofNames_concat_append names last _, ?_⟩
  intro n mem
  rcases List.mem_append.mp mem with mem | mem
  · have named := isName_of_isPlain (plain n (List.mem_append_left _ mem))
      (noPoint n (List.mem_append_left _ mem)) "" (by simp)
    rwa [String.append_empty] at named
  · rw [List.mem_singleton] at mem
    subst mem
    have mem : last ∈ names ++ [last] := List.mem_append_right _ List.mem_cons_self
    exact isName_of_isPlain (plain last mem) (noPoint last mem) _ noSlash

end UnitName

end ProcessorBench
