import ProcessorBench.Proofs.DeclaredTests

/-!
# Expected sources

What a test expects is in its declaration, line by line, or in a file. It makes no difference which of the two it is
(`Discovery.DeclaredTest.examine_agree`): lines that are laid out in a file, whatever each of them ends with, are read
as they were (`Text.lines_of_laidOut`).
-/

namespace ProcessorBench

/-! ## Lines in a file -/

namespace Text

/-- A text that has some lines. Each ends with a line feed, or with a carriage return and a line feed; the last one need
not end unless it is empty. -/
inductive LaidOut : List String → String → Prop where
  | none : LaidOut [] ""
  | last {line : String} (nonempty : line ≠ "") : LaidOut [line] line
  | line {line ending more : String} {lines : List String} (ends : ending ∈ ["\n", "\r\n"])
    (rest : LaidOut lines more) : LaidOut (line :: lines) (line ++ ending ++ more)

/-- A line by itself: it has no line feed in it, and could not be taken for one that ends with a carriage return. -/
structure IsLine (line : String) : Prop where
  whole : '\n' ∉ line.toList
  ends : line.toList.getLast? ≠ some '\r'

/-- One return at the end of a line is left out. -/
theorem withoutReturn_concat (line : List Char) : withoutReturn (line ++ ['\r']) = line := by
  simp [withoutReturn]

/-- A part that others follow is a line. -/
theorem linesOfParts_cons (line : List Char) {more : List (List Char)} (nonempty : more ≠ []) :
    linesOfParts (line :: more) = withoutReturn line :: linesOfParts more := by
  cases more with
  | nil => exact absurd rfl nonempty
  | cons => rfl

/-- Text without the separator is one part. -/
theorem parts_of_notMem {sep : Char} {text : List Char} (whole : sep ∉ text) : parts (· = sep) text = [text] :=
  parts_of_forall_not fun _ mem => decide_eq_false fun same => whole (same ▸ mem)

/-- The first line of a text, and the lines after it. -/
theorem lines_append {line : String} (whole : '\n' ∉ line.toList) (more : String) :
    lines (line ++ "\n" ++ more) = String.ofList (withoutReturn line.toList) :: lines more := by
  have chars : (line ++ "\n" ++ more).toList = line.toList ++ '\n' :: more.toList := by
    simp [String.toList_append]
  rw [lines, chars, parts_append (by decide), parts_of_notMem whole, List.singleton_append,
    linesOfParts_cons _ (parts_ne_nil _ _), List.map_cons, lines]

/-- **Lines are read as they were laid out.** -/
theorem lines_of_laidOut {given : List String} {text : String} (laidOut : LaidOut given text)
    (whole : ∀ line ∈ given, IsLine line) : lines text = given := by
  induction laidOut with
  | none => rfl
  | @last line nonempty =>
    have characters : line.toList ≠ [] := mt String.toList_eq_nil_iff.mp nonempty
    rw [lines, parts_of_notMem (whole line List.mem_cons_self).whole]
    simp [linesOfParts, characters]
  | @line line ending more given ends _ ih =>
    obtain ⟨here, whole⟩ := List.forall_mem_cons.mp whole
    rcases List.mem_pair.mp ends with rfl | rfl
    · rw [lines_append here.whole, ih whole, withoutReturn, if_neg here.ends, String.ofList_toList]
    · have split : line ++ "\r\n" ++ more = line ++ "\r" ++ "\n" ++ more := by
        simp [← String.toList_inj, String.toList_append]
      have whole' : '\n' ∉ (line ++ "\r").toList := by
        simp [String.toList_append, here.whole]
      rw [split, lines_append whole', ih whole, String.toList_append]
      have returned : "\r".toList = ['\r'] := rfl
      exact congrArg (· :: given) (by rw [returned, withoutReturn_concat, String.ofList_toList])

/-- What comes before a line feed is a line, and perhaps a carriage return. -/
theorem exists_ending (piece : List Char) : ∃ ending ∈ ["\n", "\r\n"],
    String.ofList piece ++ "\n" = String.ofList (withoutReturn piece) ++ ending := by
  by_cases ends : piece.getLast? = some '\r'
  · refine ⟨"\r\n", by simp, ?_⟩
    rw [withoutReturn, if_pos ends, ← String.toList_inj, String.toList_append, String.toList_append,
      String.toList_ofList, String.toList_ofList]
    nth_rewrite 1 [← List.dropLast_append_getLast? _ ends]
    simp
  · exact ⟨"\n", by simp, by rw [withoutReturn, if_neg ends]⟩

/-- The lines of parts are laid out in the text that the parts make up. -/
theorem laidOut_linesOfParts {pieces : List (List Char)} (nonempty : pieces ≠ []) :
    LaidOut ((linesOfParts pieces).map String.ofList) (String.ofList (['\n'].intercalate pieces)) := by
  induction pieces with
  | nil => exact absurd rfl nonempty
  | cons piece more ih =>
    cases more with
    | nil =>
      have alone : ['\n'].intercalate [piece] = piece := by simp [List.intercalate]
      rw [alone, linesOfParts]
      split
      next empty =>
        rw [empty]
        exact .none
      next nonempty' => exact .last (mt String.ofList_eq_empty_iff.mp nonempty')
    | cons next more =>
      obtain ⟨ending, ends, same⟩ := exists_ending piece
      have chars : String.ofList (['\n'].intercalate (piece :: next :: more)) =
          String.ofList piece ++ "\n" ++ String.ofList (['\n'].intercalate (next :: more)) := by
        simp [← String.toList_inj, String.toList_append, List.intercalate, List.intersperse]
      rw [linesOfParts_cons piece (List.cons_ne_nil _ _), List.map_cons, chars, same]
      exact .line ends (ih (List.cons_ne_nil _ _))

/-- Every text has its lines laid out in it. -/
theorem laidOut_lines (text : String) : LaidOut (lines text) text := by
  have laidOut := laidOut_linesOfParts (parts_ne_nil (· = '\n') text.toList)
  rwa [intercalate_parts, String.ofList_toList] at laidOut

/-- **The lines of a text are those that are laid out in it**, and no others. -/
theorem laidOut_iff {given : List String} {text : String} (whole : ∀ line ∈ given, IsLine line) :
    LaidOut given text ↔ lines text = given :=
  ⟨fun laidOut => lines_of_laidOut laidOut whole, fun same => same ▸ laidOut_lines text⟩

end Text

namespace Discovery.DeclaredTest

variable {d₁ d₂ : Discovery} {b₁ b₂ : Workbench} {h₁ h₂ : Host} {file₁ file₂ : Location}

/-- **Both ways to say what is expected come to the same.** A declaration with some lines and no file, and one that
names a file in which these lines are laid out, give cases that compare the same stub with the same source, if the
markers and the targets are the same. It makes no difference what lines there are beside the file. -/
theorem examine_agree (t₁ : DeclaredTest d₁ b₁ h₁ file₁) (t₂ : DeclaredTest d₂ b₂ h₂ file₂)
    (known₁ : t₁.LoadsSupertypes) (known₂ : t₂.LoadsSupertypes)
    (marker : t₁.marker = t₂.marker) (target : t₁.target = t₂.target) {lines : List String} (nonempty : lines ≠ [])
    (whole : ∀ line ∈ lines, Text.IsLine line)
    (first : t₁.annotation.First "expected" (.array (lines.map .string)))
    (none : ∀ name, ¬ t₁.annotation.NamesFile name)
    {name text : String} (named : t₂.annotation.NamesFile name)
    (read : t₂.left.disk.readText? (d₂.scanRoot.join ⟨name⟩) = some text) (laidOut : Text.LaidOut lines text) :
    ∃ stub expected definitions₁ definitions₂, expected = "\n".intercalate lines ∧
      (d₁.examine b₁ file₁).outcome h₁ =
        (.ok (some ⟨t₁.unit, .compare ⟨t₁.unit, t₁.artifacts⟩ stub expected⟩, definitions₁), t₁.left) ∧
      (d₂.examine b₂ file₂).outcome h₂ =
        (.ok (some ⟨t₂.unit, .compare ⟨t₂.unit, t₂.artifacts⟩ stub expected⟩, definitions₂), t₂.left) := by
  have values : lines.map AnnotationValue.string ≠ [] := mt List.map_eq_nil_iff.mp nonempty
  have strings : (lines.map AnnotationValue.string).filterMap (·.string?) = lines := by
    rw [List.filterMap_map]
    exact List.filterMap_some
  have inline : expectedText t₁.left.disk d₁.scanRoot t₁.declaration.expected =
      .ok (some ("\n".intercalate lines)) := by
    rw [declaration, Declaration.expectedOf_of_lines none first values, strings]
    rfl
  have inFile : expectedText t₂.left.disk d₂.scanRoot t₂.declaration.expected =
      .ok (some ("\n".intercalate lines)) := by
    rw [declaration, Declaration.expectedOf_eq_file.mpr named, expectedText_file read,
      Text.lines_of_laidOut laidOut whole]
  obtain ⟨definitions₁, gives₁, _⟩ := t₁.exists_examine known₁ inline
  obtain ⟨definitions₂, gives₂, _⟩ := t₂.exists_examine known₂ inFile
  refine ⟨t₁.target.stub t₁.marker, _, definitions₁, definitions₂, rfl, gives₁, ?_⟩
  rw [marker, target]
  exact gives₂

/-- A compiler that goes by content leaves the disk as it is. -/
theorem disk_left {d : Discovery} {b : Workbench} {h : Host} {file : Location} (t : DeclaredTest d b h file)
    {answer : RequestContent → CompilerAnswer} (content : b.compiler = ContentCompiler.ofAnswers answer)
    (wf : h.disk.tree.WellFormed) : t.left.disk = h.disk := by
  obtain ⟨_, _, _, _, _, compiles⟩ := Workbench.compile_leaves content t.unit t.source none nofun wf
  have same := t.compiled.symm.trans (compiles h.calls)
  rw [(Prod.mk.inj same).2]

end Discovery.DeclaredTest

/-! ### Two declarations of the same lines -/

/-- The texts in an array of texts. -/
def AnnotationValue.strings? : AnnotationValue → Option (List String)
  | .array values => values.mapM (·.string?)
  | _ => none

/-- An array of texts holds nothing but these texts. -/
theorem AnnotationValue.eq_of_strings? {v : AnnotationValue} {lines : List String} (given : v.strings? = some lines) :
    v = .array (lines.map .string) := by
  cases v with
  | array values =>
    replace given : values.mapM (·.string?) = some lines := given
    congr 1
    induction values generalizing lines with
    | nil =>
      cases given
      rfl
    | cons value values ih =>
      rw [List.mapM_cons] at given
      obtain ⟨line, first, given⟩ := Option.bind_eq_some_iff.mp given
      obtain ⟨rest, others, given⟩ := Option.bind_eq_some_iff.mp given
      cases given
      rw [AnnotationValue.string?_eq_some.mp first, ih others]
      rfl
  | _ => cases given

namespace Discovery.DeclaredTest

open Discovery (processorClass textConstant)

/-- A class with the lines in its declaration. -/
def inlineClass : Bytes :=
  processorClass "A" "javax/annotation/processing/AbstractProcessor"
    (["expected", "class Example", "", "end"].map textConstant) []
    [[0, 12, 0x5b, 0, 3, 0x73, 0, 13, 0x73, 0, 14, 0x73, 0, 15]]

/-- A class whose declaration names a file. -/
def fileClass : Bytes :=
  processorClass "B" "javax/annotation/processing/AbstractProcessor"
    (["expectedFile", "lines.txt"].map textConstant) [] [[0, 12, 0x73, 0, 13]]

/-- A compiler that makes both. -/
def declareBoth (_ : RequestContent) : CompilerAnswer where
  classes := [⟨"A.class", .file inlineClass false⟩, ⟨"B.class", .file fileClass false⟩]
  generated := []
  result := .ok true
  classes_wellFormed := rfl
  generated_wellFormed := FileTree.wellFormed_empty

/-- A bench with that compiler. -/
def bothBench : Workbench := bareBench declareBoth

/-- The lines in the file, with different ends. -/
def mixedText : String := "class Example\r\n\nend"

/-- A host with two sources and the file. -/
def bothHost : Host where
  disk := ⟨.dir [⟨"src", .dir [⟨"A.java", .file [] false⟩, ⟨"B.java", .file [] false⟩,
    ⟨"lines.txt", .file (Utf8.encode mixedText) false⟩]⟩, ⟨"tmp", .dir []⟩], []⟩
  environment := []

/-- What is made for each of the sources. -/
def bothArtifacts : ArtifactSet := ⟨[("A", ⟨["A.class"], inlineClass⟩), ("B", ⟨["B.class"], fileClass⟩)]⟩

/-- The loader for what is made. -/
def bothLoader : ClassLoader := bareSearch.loaderOf bothArtifacts

/-- The lines that an element of the name gives to the declaration of a unit. -/
def linesOf (name unit : String) : Option (List String) :=
  (bothLoader.ask bothHost.disk unit).toOption.bind fun c =>
    (c.annotationOf? Declaration.descriptor).bind fun a => (a.element? name).bind (·.strings?)

/-- The lines that are found under a name stand there in the declaration of the test. -/
theorem first_of_linesOf {file : Location} (t : DeclaredTest bareSearch bothBench bothHost file)
    (artifacts : t.artifacts = bothArtifacts) {name : String} {lines : List String}
    (given : linesOf name t.unit = some lines) : t.annotation.First name (.array (lines.map .string)) := by
  have loads := t.loads
  rw [artifacts, t.disk_left rfl rfl, ← bothLoader] at loads
  rw [linesOf, loads] at given
  replace given : (t.primary.annotationOf? _).bind _ = some lines := given
  rw [t.declares, Option.bind_some] at given
  obtain ⟨value, first, strings⟩ := Option.bind_eq_some_iff.mp given
  rw [← AnnotationValue.eq_of_strings? strings]
  exact AnnotationContent.element?_eq_some.mp first

/-- The test that a unit of the host declares. -/
theorem exists_bothWays {file : Location} {unit : String} {declaration : Declaration}
    (named : UnitName.ofNames? file "java" = some unit)
    (readable : bothHost.disk.readText? ((⟨"/src"⟩ : Path).joinAll file) = some "")
    (made : ((bothBench.compile unit (some "") none).outcome bothHost).1 = .ok (some bothArtifacts))
    (found : (match inspect bothHost.disk bothLoader unit {} with
      | .ok declared _ => declared
      | .error .. => none) = some declaration) :
    ∃ t : DeclaredTest bareSearch bothBench bothHost file, t.unit = unit ∧ t.artifacts = bothArtifacts ∧
      t.declaration = declaration ∧ t.LoadsSupertypes :=
  exists_declaredTest named readable made (by decide +kernel) found

/-- The lines of the one declaration are those in the file that the other one names. -/
theorem examine_agree_bothWays :
    ∃ (t₁ : DeclaredTest bareSearch bothBench bothHost ["A.java"])
      (t₂ : DeclaredTest bareSearch bothBench bothHost ["B.java"]),
      t₁.LoadsSupertypes ∧ t₂.LoadsSupertypes ∧ t₁.marker = t₂.marker ∧ t₁.target = t₂.target ∧
      ["class Example", "", "end"] ≠ [] ∧
      (∀ line ∈ ["class Example", "", "end"], Text.IsLine line) ∧
      t₁.annotation.First "expected" (.array (["class Example", "", "end"].map .string)) ∧
      (∀ name, ¬ t₁.annotation.NamesFile name) ∧ t₂.annotation.NamesFile "lines.txt" ∧
      t₂.left.disk.readText? (bareSearch.scanRoot.join ⟨"lines.txt"⟩) = some mixedText ∧
      Text.LaidOut ["class Example", "", "end"] mixedText ∧
      ∃ stub expected definitions₁ definitions₂, expected = "\n".intercalate ["class Example", "", "end"] ∧
        (examine bareSearch bothBench ["A.java"]).outcome bothHost =
          (.ok (some ⟨t₁.unit, .compare ⟨t₁.unit, t₁.artifacts⟩ stub expected⟩, definitions₁), t₁.left) ∧
        (examine bareSearch bothBench ["B.java"]).outcome bothHost =
          (.ok (some ⟨t₂.unit, .compare ⟨t₂.unit, t₂.artifacts⟩ stub expected⟩, definitions₂), t₂.left) := by
  obtain ⟨t₁, unit₁, artifacts₁, declares₁, known₁⟩ : ∃ t : DeclaredTest bareSearch bothBench bothHost ["A.java"],
      t.unit = "A" ∧ t.artifacts = bothArtifacts ∧
        t.declaration = ⟨"java.lang.Deprecated", .type, .inline ["class Example", "", "end"]⟩ ∧ t.LoadsSupertypes :=
    exists_bothWays rfl (by decide +kernel) (by decide +kernel) (by decide +kernel)
  obtain ⟨t₂, unit₂, artifacts₂, declares₂, known₂⟩ : ∃ t : DeclaredTest bareSearch bothBench bothHost ["B.java"],
      t.unit = "B" ∧ t.artifacts = bothArtifacts ∧
        t.declaration = ⟨"java.lang.Deprecated", .type, .file ⟨"lines.txt"⟩⟩ ∧ t.LoadsSupertypes :=
    exists_bothWays rfl (by decide +kernel) (by decide +kernel) (by decide +kernel)
  have whole : ∀ line ∈ ["class Example", "", "end"], Text.IsLine line := by
    rw [List.forall_mem_cons, List.forall_mem_cons, List.forall_mem_singleton]
    exact ⟨⟨by decide, by decide⟩, ⟨by decide, by decide⟩, ⟨by decide, by decide⟩⟩
  have given : linesOf "expected" t₁.unit = some ["class Example", "", "end"] := by
    rw [unit₁]
    decide +kernel
  have first := first_of_linesOf t₁ artifacts₁ given
  have noFile : ∀ name, ¬ t₁.annotation.NamesFile name := fun name named => by
    have file := (congrArg Declaration.expected declares₁).symm.trans (Declaration.expectedOf_eq_file.mpr named)
    cases file
  have named : t₂.annotation.NamesFile "lines.txt" :=
    Declaration.expectedOf_eq_file.mp (congrArg Declaration.expected declares₂)
  have read : t₂.left.disk.readText? (bareSearch.scanRoot.join ⟨"lines.txt"⟩) = some mixedText := by
    rw [t₂.disk_left rfl rfl]
    decide +kernel
  have laidOut : Text.LaidOut ["class Example", "", "end"] mixedText := (Text.laidOut_iff whole).mpr (by decide +kernel)
  have marker : t₁.marker = t₂.marker := (congrArg Declaration.marker declares₁).trans
    (congrArg Declaration.marker declares₂).symm
  have target : t₁.target = t₂.target := (congrArg Declaration.target declares₁).trans
    (congrArg Declaration.target declares₂).symm
  exact ⟨t₁, t₂, known₁, known₂, marker, target, by decide, whole, first, noFile, named, read, laidOut,
    examine_agree t₁ t₂ known₁ known₂ marker target (by decide) whole first noFile named read laidOut⟩

end Discovery.DeclaredTest

end ProcessorBench
