import ProcessorBench.Proofs.Sites

/-!
# Going on from a path

Whatever a path looks like, going on from it along texts without a slash adds these to its segments; a slash at the
end of the path makes no segment of its own then (`Path.exists_segments_join`). So the way leads on from where the
path leads (`Disk.locate_joinAll`). If none of the texts is `..`, it stays below that place
(`Disk.prefix_of_locate_joinAll`), and what it leads to depends on the tree of that place only
(`Disk.lookup_joinAll`). Leaving out the last name leads back, but for segments that make no step
(`Path.exists_parent?`).
-/

namespace ProcessorBench

namespace Path

variable {p : Path} {segment name : String} {segments names : List String}

/-- A relative path stays relative when something is put behind it. -/
theorem not_isAbsolute_append (nonempty : p.text ≠ "") (relative : p.isAbsolute = false) (rest : String) :
    isAbsolute ⟨p.text ++ rest⟩ = false := by
  have filled : p.text.toList ≠ [] := fun empty => nonempty (by simpa using empty)
  obtain ⟨first, more, split⟩ := List.exists_cons_of_ne_nil filled
  simp only [isAbsolute, String.toList_append, split] at relative ⊢
  exact relative

/-- Whether a path is absolute is decided by its beginning. -/
theorem isAbsolute_append_eq (nonempty : p.text ≠ "") (rest : String) :
    isAbsolute ⟨p.text ++ rest⟩ = p.isAbsolute := by
  cases absolute : p.isAbsolute with
  | true => exact isAbsolute_append absolute rest
  | false => exact not_isAbsolute_append nonempty absolute rest

/-- What has no slash in it is relative. -/
theorem not_isAbsolute_of_not_mem (whole : '/' ∉ segment.toList) : isAbsolute ⟨segment⟩ = false := by
  rw [isAbsolute, decide_eq_false_iff_not]
  exact fun slash => whole (List.mem_of_mem_head? slash)

/-- What stands between a path and what it goes on along. -/
def joint (p : Path) : String := if p.text.toList.getLast? = some '/' then "" else "/"

/-- A relative path is put behind another one. -/
theorem join_relative (nonempty : p.text ≠ "") {next : String} (relative : isAbsolute ⟨next⟩ = false) :
    p.join ⟨next⟩ = ⟨p.text ++ (p.joint ++ next)⟩ := by
  rw [join, relative, if_neg Bool.false_ne_true, joint]
  by_cases slash : p.text.toList.getLast? = some '/'
  · rw [if_pos (by simp [slash]), if_pos slash, String.empty_append]
  · rw [if_neg (by simp [nonempty, slash]), if_neg slash, String.append_assoc]

/-- A segment is put behind a path. -/
theorem join_segment (nonempty : p.text ≠ "") (whole : '/' ∉ segment.toList) :
    p.join ⟨segment⟩ = ⟨p.text ++ (p.joint ++ segment)⟩ :=
  join_relative nonempty (not_isAbsolute_of_not_mem whole)

/-- What something has been put behind is not empty. -/
theorem join_text_ne_empty (nonempty : p.text ≠ "") (whole : '/' ∉ segment.toList) :
    (p.join ⟨segment⟩).text ≠ "" := by
  rw [join_segment nonempty whole]
  exact fun empty => nonempty (String.append_eq_empty_iff.mp empty).1

/-- **Going on along a segment** adds it to those of the path, where a slash at the end does not count. -/
theorem exists_segments_join (nonempty : p.text ≠ "") : ∃ stem, (p.segments = stem ∨ p.segments = stem ++ [""]) ∧
    ∀ segment, '/' ∉ segment.toList → (p.join ⟨segment⟩).segments = stem ++ [segment] := by
  have cut (front segment : String) (whole : '/' ∉ segment.toList) :
      Path.segments ⟨front ++ "/" ++ segment⟩ = Path.segments ⟨front⟩ ++ [segment] := by
    refine (Text.splitOn_append '/' front segment).trans ?_
    rw [Text.splitOn_of_not_mem whole]
    rfl
  by_cases slash : p.text.toList.getLast? = some '/'
  · obtain ⟨front, text⟩ := exists_text_of_slash slash
    refine ⟨Path.segments ⟨front⟩, .inr ?_, fun segment whole => ?_⟩
    · have ended := cut front "" (by simp)
      rwa [String.append_empty, ← text] at ended
    · rw [join_segment nonempty whole, joint, if_pos slash, String.empty_append, text, cut _ _ whole]
  · refine ⟨p.segments, .inl rfl, fun segment whole => ?_⟩
    rw [join_segment nonempty whole, joint, if_neg slash, ← String.append_assoc, cut _ _ whole]

/-- Putting segments behind a path leaves its beginning. -/
theorem exists_text_joinAll (nonempty : p.text ≠ "") (whole : ∀ s ∈ segments, '/' ∉ s.toList) :
    ∃ rest, p.joinAll segments = ⟨p.text ++ rest⟩ := by
  induction segments generalizing p with
  | nil => exact ⟨"", by rw [String.append_empty]; rfl⟩
  | cons segment segments ih =>
    obtain ⟨first, whole⟩ := List.forall_mem_cons.mp whole
    obtain ⟨rest, text⟩ := ih (join_text_ne_empty nonempty first) whole
    rw [joinAll_cons, text, join_segment nonempty first]
    exact ⟨p.joint ++ segment ++ rest, by rw [String.append_assoc]⟩

/-- Going on along the path of some names is going on along the names, from wherever. -/
theorem join_ofNames (nonempty : p.text ≠ "") (given : names ≠ []) (named : ∀ n ∈ names, isName n = true) :
    p.join (ofNames names) = p.joinAll names := by
  obtain ⟨name, names, rfl⟩ := List.exists_cons_of_ne_nil given
  obtain ⟨first, named⟩ := List.forall_mem_cons.mp named
  have whole := (isName_iff.mp first).2.2.2
  rw [ofNames_cons, join_relative nonempty (not_isAbsolute_of_isName first _), joinAll_cons,
    joinAll_eq (join_text_ne_empty nonempty whole) (getLast?_join first) named, join_segment nonempty whole]
  simp only [String.append_assoc]

end Path

/-! ## Where it leads -/

namespace Disk

variable {d : Disk} {p : Path} {t : FileTree} {base here l : Location} {segment : String} {segments : List String}

/-- A path leads from the same place when something is put behind it. -/
theorem start_append (nonempty : p.text ≠ "") (rest : String) : d.start ⟨p.text ++ rest⟩ = d.start p := by
  rw [start, Path.isAbsolute_append_eq nonempty, start]

/-- If a path is possible, so is its beginning. -/
theorem checkPath_of_append {rest : String} (nonempty : p.text ≠ "")
    (possible : checkPath ⟨p.text ++ rest⟩ = .ok ()) : checkPath p = .ok () := by
  obtain ⟨zero, fits, _⟩ := checkPath_eq_ok.mp possible
  simp only [String.toList_append, List.mem_append, not_or, String.utf8ByteSize_append] at zero fits
  exact checkPath_eq_ok.mpr ⟨zero.1, by omega, nonempty⟩

/-- In a directory, an empty segment leads nowhere else; where there is none, no segment leads anywhere. -/
theorem follow_idle (t : FileTree) (here : Location) (segment : String) (segments : List String) :
    (follow t here [""]).bind (fun l => follow t l (segment :: segments)) =
      follow t here (segment :: segments) := by
  have idle : Path.Component.ofSegment? "" = none := rfl
  rw [follow_cons t here "", follow_cons t here segment, advance, advance, idle]
  rcases found : t.at? here with _ | (_ | _)
  · rfl
  · rfl
  · show follow t here (segment :: segments) = _
    rw [follow_cons, advance, found]

/-- One leads where a path with one more segment leads by following the path first. -/
theorem follow_join (nonempty : p.text ≠ "") (whole : '/' ∉ segment.toList) (t : FileTree) (here : Location)
    (segments : List String) : follow t here ((p.join ⟨segment⟩).segments ++ segments) =
      (follow t here p.segments).bind fun l => follow t l (segment :: segments) := by
  obtain ⟨stem, ending, joined⟩ := Path.exists_segments_join nonempty
  rw [joined segment whole, List.append_assoc, List.singleton_append, follow_append]
  rcases ending with same | same
  · rw [same]
  · rw [same, follow_append]
    cases follow t here stem with
    | error fault => rfl
    | ok l => exact (follow_idle t l segment segments).symm

/-- One leads where a path with more segments leads by following the path first. -/
theorem follow_joinAll (nonempty : p.text ≠ "") (whole : ∀ s ∈ segments, '/' ∉ s.toList) (t : FileTree)
    (here : Location) : follow t here (p.joinAll segments).segments =
      (follow t here p.segments).bind fun l => follow t l segments := by
  induction segments generalizing p with
  | nil =>
    show follow t here p.segments = _
    cases follow t here p.segments <;> rfl
  | cons segment segments ih =>
    obtain ⟨first, whole⟩ := List.forall_mem_cons.mp whole
    rw [Path.joinAll_cons, ih (Path.join_text_ne_empty nonempty first) whole, ← follow_append,
      follow_join nonempty first]

/-- **A path that goes on** leads on from where the path leads. -/
theorem locate_joinAll (nonempty : p.text ≠ "") (whole : ∀ s ∈ segments, '/' ∉ s.toList) (d : Disk) :
    d.locate (p.joinAll segments) = (checkPath (p.joinAll segments)).bind fun _ =>
      (d.locate p).bind fun l => follow d.tree l segments := by
  obtain ⟨rest, text⟩ := Path.exists_text_joinAll nonempty whole
  rw [locate, follow_joinAll nonempty whole, text, start_append nonempty]
  cases possible : checkPath ⟨p.text ++ rest⟩ with
  | error fault => rfl
  | ok =>
    rw [locate, checkPath_of_append nonempty possible]
    rfl

/-- A path that leads anywhere is a text. -/
theorem text_ne_empty_of_locate (located : d.locate p = .ok l) : p.text ≠ "" := by
  obtain ⟨_, possible, _⟩ := bind_eq_ok.mp located
  exact (checkPath_eq_ok.mp possible).2.2

/-- Without a step upwards a path leads below where it starts. -/
theorem prefix_of_follow (inside : ∀ s ∈ segments, Path.Component.ofSegment? s ≠ some .parent)
    (leads : follow t here segments = .ok l) : here <+: l := by
  induction segments generalizing here with
  | nil =>
    cases leads
    exact List.prefix_rfl
  | cons segment segments ih =>
    obtain ⟨first, inside⟩ := List.forall_mem_cons.mp inside
    have above : here <+: turn here segment := by
      unfold turn
      split
      · exact List.prefix_rfl
      next up => exact absurd up first
      · exact List.prefix_append _ _
    exact above.trans (ih inside (follow_cons_eq_ok leads).2.2)

/-- **A path that goes on, but never up,** leads to a place below the one where the path leads. -/
theorem prefix_of_locate_joinAll (nonempty : p.text ≠ "") (whole : ∀ s ∈ segments, '/' ∉ s.toList)
    (inside : ∀ s ∈ segments, Path.Component.ofSegment? s ≠ some .parent)
    (located : d.locate (p.joinAll segments) = .ok l) : ∃ base, d.locate p = .ok base ∧ base <+: l := by
  rw [locate_joinAll nonempty whole] at located
  obtain ⟨_, _, located⟩ := bind_eq_ok.mp located
  obtain ⟨base, above, leads⟩ := bind_eq_ok.mp located
  exact ⟨base, above, prefix_of_follow inside leads⟩

/-- What segments lead to in a tree. -/
def below (t : FileTree) (segments : List String) : Except FileFault FileTree := do
  match t.at? (← follow t [] segments) with
  | some u => return u
  | none => throw .missing

/-- **What a path leads to that goes on, but never up,** is in the tree where the path leads. -/
theorem lookup_joinAll (found : d.lookup p = .ok t) (whole : ∀ s ∈ segments, '/' ∉ s.toList)
    (inside : ∀ s ∈ segments, Path.Component.ofSegment? s ≠ some .parent) :
    d.lookup (p.joinAll segments) = (checkPath (p.joinAll segments)).bind fun _ => below t segments := by
  obtain ⟨base, located, has⟩ := lookup_eq_ok.mp found
  have leads := follow_inside has inside []
  rw [List.append_nil] at leads
  rw [lookup, locate_joinAll (text_ne_empty_of_locate located) whole, located]
  cases checkPath (p.joinAll segments) with
  | error fault => rfl
  | ok =>
    show ((follow d.tree base segments).bind fun l => _) = below t segments
    rw [leads, below]
    cases follow t [] segments with
    | error fault => rfl
    | ok l =>
      show (match d.tree.at? (base ++ l) with
        | some tree => return tree
        | none => throw .missing : Except FileFault FileTree) = match t.at? l with
        | some u => return u
        | none => throw .missing
      rw [FileTree.at?_append, has, Option.bind_some]

/-- A path that goes on leads to something only if the path does. -/
theorem exists_lookup_of_joinAll (nonempty : p.text ≠ "") (whole : ∀ s ∈ segments, '/' ∉ s.toList)
    (given : segments ≠ []) {u : FileTree} (found : d.lookup (p.joinAll segments) = .ok u) :
    ∃ t, d.lookup p = .ok t := by
  obtain ⟨l, located, _⟩ := lookup_eq_ok.mp found
  rw [locate_joinAll nonempty whole] at located
  obtain ⟨_, _, located⟩ := bind_eq_ok.mp located
  obtain ⟨base, above, leads⟩ := bind_eq_ok.mp located
  obtain ⟨segment, segments, rfl⟩ := List.exists_cons_of_ne_nil given
  obtain ⟨entries, isDir⟩ := (follow_cons_eq_ok leads).1
  exact ⟨_, lookup_eq_ok.mpr ⟨base, above, isDir⟩⟩

/-- What a path leads to that goes on, but never up, depends on what the path leads to, and on nothing else. -/
theorem toOption_lookup_joinAll_congr {d' : Disk} (nonempty : p.text ≠ "") (whole : ∀ s ∈ segments, '/' ∉ s.toList)
    (inside : ∀ s ∈ segments, Path.Component.ofSegment? s ≠ some .parent) (given : segments ≠ [])
    (same : (d.lookup p).toOption = (d'.lookup p).toOption) :
    (d.lookup (p.joinAll segments)).toOption = (d'.lookup (p.joinAll segments)).toOption := by
  have failing {d : Disk} (missing : (d.lookup p).toOption = none) :
      (d.lookup (p.joinAll segments)).toOption = none := by
    cases found : d.lookup (p.joinAll segments) with
    | error fault => rfl
    | ok u =>
      obtain ⟨t, above⟩ := exists_lookup_of_joinAll nonempty whole given found
      rw [above] at missing
      cases missing
  cases found : d.lookup p with
  | error fault =>
    rw [found] at same
    rw [failing (by rw [found]; rfl), failing same.symm]
  | ok t =>
    cases found' : d'.lookup p with
    | error fault =>
      rw [found, found'] at same
      cases same
    | ok t' =>
      rw [found, found'] at same
      cases same
      rw [lookup_joinAll found whole inside, lookup_joinAll found' whole inside]

end Disk

/-! ## Leaving out the last step -/

namespace Text

/-- Pieces that are put together with separators come apart again. -/
theorem parts_intercalate {sep : Char} {pieces : List (List Char)} (whole : ∀ piece ∈ pieces, sep ∉ piece)
    (nonempty : pieces ≠ []) : parts (· = sep) ([sep].intercalate pieces) = pieces := by
  induction pieces with
  | nil => exact absurd rfl nonempty
  | cons piece pieces ih =>
    obtain ⟨first, whole⟩ := List.forall_mem_cons.mp whole
    have alone : parts (· = sep) piece = [piece] := by
      apply parts_of_forall_not
      intro c mem
      rw [decide_eq_false_iff_not]
      rintro rfl
      exact first mem
    cases pieces with
    | nil => rw [List.intercalate_singleton, alone]
    | cons next pieces =>
      have split : [sep].intercalate (piece :: next :: pieces) =
          piece ++ sep :: [sep].intercalate (next :: pieces) := by
        simp [List.intercalate]
      rw [split, parts_append (by simp), alone, ih whole (List.cons_ne_nil _ _)]
      rfl

/-- The first pieces make up the beginning of the text. -/
theorem intercalate_isPrefixOf (sep : List Char) {pieces more : List (List Char)} (isPrefix : pieces <+: more) :
    sep.intercalate pieces <+: sep.intercalate more := by
  induction pieces generalizing more with
  | nil => exact List.nil_prefix
  | cons piece pieces ih =>
    obtain ⟨rest, rfl⟩ := isPrefix
    cases pieces with
    | nil =>
      cases rest with
      | nil => exact List.prefix_rfl
      | cons next rest => simp [List.intercalate]
    | cons next pieces =>
      have later := ih (List.prefix_append (next :: pieces) rest)
      simpa [List.intercalate] using later

end Text

namespace Path

variable {p : Path} {segment name : String} {segments names : List String} {pieces : List (List Char)}

/-- The segments of a path that make a step. -/
def steps (p : Path) : List String := p.segments.filter fun s => (Component.ofSegment? s).isSome

/-- The texts among some that make a step. -/
def busy (pieces : List (List Char)) : List (List Char) := pieces.filter (!isIdle ·)

/-- A segment is a component unless it is idle. -/
theorem isSome_ofSegment? (piece : List Char) :
    (Component.ofSegment? (String.ofList piece)).isSome = !isIdle piece := by
  have empty : (String.ofList piece = "") ↔ piece = [] := by
    rw [← String.toList_inj, String.toList_ofList]
    rfl
  have point : (String.ofList piece = ".") ↔ piece = ['.'] := by
    rw [← String.toList_inj, String.toList_ofList]
    rfl
  unfold Component.ofSegment? isIdle
  simp only [empty, point]
  by_cases idle : piece = [] ∨ piece = ['.']
  · rcases idle with rfl | rfl <;> rfl
  · obtain ⟨nonempty, other⟩ := not_or.mp idle
    simp only [nonempty, other, decide_false, Bool.or_self, Bool.false_eq_true, if_false, Bool.not_false]
    split <;> rfl

/-- The steps of a path are the pieces of its text that are not idle. -/
theorem steps_eq (p : Path) : p.steps = (busy (Text.parts (· = '/') p.text.toList)).map String.ofList := by
  rw [steps, segments, Text.splitOn, List.filter_map, busy]
  congr 2
  funext piece
  exact isSome_ofSegment? piece

/-- Trimming leaves a beginning. -/
theorem trimmed_isPrefixOf (pieces : List (List Char)) : trimmed pieces <+: pieces := by
  rw [trimmed, ← List.reverse_suffix, List.reverse_reverse]
  exact List.dropWhile_suffix _

/-- Trimming takes away idle pieces only. -/
theorem busy_trimmed (pieces : List (List Char)) : busy (trimmed pieces) = busy pieces := by
  have dropped (pieces : List (List Char)) : busy (pieces.dropWhile isIdle) = busy pieces := by
    induction pieces with
    | nil => rfl
    | cons piece pieces ih =>
      cases idle : isIdle piece with
      | true =>
        rw [List.dropWhile_cons_of_pos idle, ih, busy, busy, List.filter_cons_of_neg (by simp [idle])]
      | false => rw [List.dropWhile_cons_of_neg (by simp [idle])]
  rw [trimmed, busy, List.filter_reverse]
  show (busy _).reverse = _
  rw [dropped, busy, List.filter_reverse, List.reverse_reverse]
  rfl

/-- What is trimmed makes a step at its end, if any at all. -/
theorem trimmed_eq_concat (given : busy pieces ≠ []) :
    ∃ before last, trimmed pieces = before ++ [last] ∧ isIdle last = false := by
  rw [← busy_trimmed] at given
  rcases List.eq_nil_or_concat' (trimmed pieces) with none | ⟨before, last, split⟩
  · rw [none] at given
    exact absurd rfl given
  · refine ⟨before, last, split, ?_⟩
    rw [trimmed, List.reverse_eq_append_iff] at split
    have here := List.head?_dropWhile_not isIdle pieces.reverse
    rw [split] at here
    simpa using here


/-- What stands at the front of a path, and the rest behind it, as `splitLeading` tells them apart. -/
inductive Leading (p : Path) : List Char → List Char → Prop where
  | none (relative : p.isAbsolute = false) : Leading p [] p.text.toList
  | root {rest : List Char} (text : p.text.toList = '/' :: rest) : Leading p ['/'] rest
  | current {rest : List Char} {more : List (List Char)} (text : p.text.toList = '.' :: rest)
    (behind : Text.parts (· = '/') rest = [] :: more) : Leading p ['.'] rest

/-- Every path has a leading part and pieces behind it. -/
theorem leading (p : Path) : p.Leading p.splitLeading.1 p.splitLeading.2 := by
  unfold splitLeading leading?
  by_cases absolute : p.isAbsolute = true
  · rw [if_pos absolute]
    obtain ⟨rest, text⟩ : ∃ rest, p.text.toList = '/' :: rest := by
      simp only [isAbsolute, decide_eq_true_eq] at absolute
      exact List.head?_eq_some_iff.mp absolute
    simpa [text] using Leading.root text
  rw [if_neg absolute]
  have relative := Bool.eq_false_iff.mpr absolute
  by_cases current : p.segments.head? = some "."
  · rw [if_pos current]
    cases text : p.text.toList with
    | nil =>
      rw [segments, Text.splitOn, text] at current
      exact absurd current (by decide)
    | cons first rest =>
      obtain ⟨part, more, split⟩ := List.exists_cons_of_ne_nil (Text.parts_ne_nil (· = '/') rest)
      have apart : first ≠ '/' := by
        rintro rfl
        simp [isAbsolute, text] at relative
      rw [segments, Text.splitOn, text, Text.parts, if_neg (by simp [apart]), split] at current
      have front : first = '.' ∧ part = [] := by
        have same := congrArg (Option.map String.toList) current
        simpa using same
      obtain ⟨rfl, rfl⟩ := front
      exact .current text split
  · rw [if_neg current]
    exact .none relative

theorem isIdle_nil : isIdle [] = true := rfl

theorem isIdle_point : isIdle ['.'] = true := rfl

theorem busy_cons_of_isIdle {piece : List Char} (idle : isIdle piece = true) (pieces : List (List Char)) :
    busy (piece :: pieces) = busy pieces := List.filter_cons_of_neg (by simp [idle])

/-- What stands at the front of a path makes no step of its own. -/
theorem Leading.busy_parts {start rest : List Char} (leading : p.Leading start rest) {pieces : List (List Char)}
    (isPrefix : pieces <+: Text.parts (· = '/') rest) :
    busy (Text.parts (· = '/') (start ++ ['/'].intercalate pieces)) = busy pieces := by
  have whole : ∀ piece ∈ pieces, '/' ∉ piece := by
    intro piece mem slash
    have apart := Text.forall_not_of_mem_parts (isPrefix.subset mem) '/' slash
    simp at apart
  have behind : busy (Text.parts (· = '/') (['/'].intercalate pieces)) = busy pieces := by
    by_cases nonempty : pieces = []
    · subst nonempty
      rfl
    · rw [Text.parts_intercalate whole nonempty]
  cases leading with
  | none => exact behind
  | root => exact (busy_cons_of_isIdle isIdle_nil _).trans behind
  | current _ split =>
    rw [split] at isPrefix
    cases pieces with
    | nil => rfl
    | cons piece pieces =>
      obtain ⟨rfl, _⟩ := List.cons_prefix_cons.mp isPrefix
      rw [List.cons_append, List.nil_append, Text.parts, if_neg (by simp),
        Text.parts_intercalate whole (List.cons_ne_nil _ _)]
      simp only
      rw [busy_cons_of_isIdle isIdle_point, busy_cons_of_isIdle isIdle_nil]

/-- The leading part and the pieces make up the path. -/
theorem Leading.text {start rest : List Char} (leading : p.Leading start rest) : p.text.toList = start ++ rest := by
  cases leading with
  | none => rfl
  | root text => exact text
  | current text => exact text

/-- The leading part decides whether a path is absolute, whatever is left of the pieces. -/
theorem Leading.isAbsolute_iff {start rest : List Char} (leading : p.Leading start rest) {more : List Char}
    (isPrefix : more <+: rest) : isAbsolute ⟨String.ofList (start ++ more)⟩ = p.isAbsolute := by
  cases leading with
  | none relative =>
    rw [relative, isAbsolute, decide_eq_false_iff_not]
    intro slash
    obtain ⟨behind, split⟩ := isPrefix
    simp only [List.nil_append, String.toList_ofList] at slash
    obtain ⟨more, rfl⟩ := List.head?_eq_some_iff.mp slash
    simp [isAbsolute, ← split] at relative
  | root text => simp [isAbsolute, text]
  | current text => simp [isAbsolute, text]

/-- **A path that makes a step** has a parent, which makes all steps but the last. -/
theorem exists_parent? {last : String} {before : List String} (stepping : p.steps = before ++ [last]) :
    ∃ q, p.parent? = some q ∧ q.steps = before ∧ q.isAbsolute = p.isAbsolute ∧ ∃ rest, p.text = q.text ++ rest := by
  have leading := p.leading
  rw [parent?]
  generalize p.splitLeading = whole at leading ⊢
  obtain ⟨start, rest⟩ := whole
  simp only at leading ⊢
  -- What is behind the front makes the same steps, so that some of it is left when it has been trimmed.
  have steps : (busy (Text.parts (· = '/') rest)).map String.ofList = before ++ [last] := by
    have all := leading.busy_parts List.prefix_rfl
    rw [Text.intercalate_parts, ← leading.text] at all
    rw [← all, ← steps_eq, stepping]
  have given : busy (Text.parts (· = '/') rest) ≠ [] := by
    intro none
    rw [none] at steps
    exact List.append_ne_nil_of_right_ne_nil _ (List.cons_ne_nil _ _) steps.symm
  obtain ⟨front, piece, split, notIdle⟩ := trimmed_eq_concat given
  have isPrefix : trimmed front <+: Text.parts (· = '/') rest := by
    refine (trimmed_isPrefixOf front).trans ?_
    have cut := trimmed_isPrefixOf (Text.parts (· = '/') rest)
    rw [split] at cut
    exact (List.prefix_append _ _).trans cut
  have isPrefix' := Text.intercalate_isPrefixOf ['/'] isPrefix
  rw [Text.intercalate_parts] at isPrefix'
  rw [split]
  split
  next none => exact absurd none (by simp)
  next =>
    rw [List.dropLast_concat]
    refine ⟨_, rfl, ?_, leading.isAbsolute_iff isPrefix', ?_⟩
    · rw [steps_eq, String.toList_ofList, leading.busy_parts isPrefix, busy_trimmed]
      rw [← busy_trimmed, split, busy, List.filter_append, List.filter_cons_of_pos (by simp [notIdle]),
        List.filter_nil, List.map_append] at steps
      exact (List.append_inj' steps rfl).1
    · obtain ⟨behind, rest'⟩ := isPrefix'
      refine ⟨String.ofList behind, ?_⟩
      rw [← String.toList_inj, leading.text, ← rest']
      simp

/-- A name behind a path is one more step. -/
theorem steps_join (nonempty : p.text ≠ "") (named : isName name = true) :
    (p.join ⟨name⟩).steps = p.steps ++ [name] := by
  obtain ⟨stem, ending, joined⟩ := exists_segments_join nonempty
  have made : (Component.ofSegment? name).isSome = true := by
    rw [ofSegment?_of_isName named]
    rfl
  rw [steps, joined name (isName_iff.mp named).2.2.2, List.filter_append, List.filter_cons_of_pos (by simp [made]),
    List.filter_nil, steps]
  rcases ending with same | same
  · rw [same]
  · rw [same, List.filter_append]
    simp [Component.ofSegment?]

/-- Names behind a path are as many more steps. -/
theorem steps_joinAll (nonempty : p.text ≠ "") (named : ∀ n ∈ names, isName n = true) :
    (p.joinAll names).steps = p.steps ++ names := by
  induction names generalizing p with
  | nil => exact (List.append_nil _).symm
  | cons name names ih =>
    obtain ⟨first, named⟩ := List.forall_mem_cons.mp named
    rw [joinAll_cons, ih (join_text_ne_empty nonempty (isName_iff.mp first).2.2.2) named, steps_join nonempty first,
      List.append_assoc, List.singleton_append]

end Path

namespace Disk

variable {d : Disk} {p : Path} {base : Location} {entries : List DirEntry} {names : List String} {name : String}

/-- Directories are created along the segments that make a step. -/
theorem createFrom_filter (here : Location) (segments : List String) (d : Disk) :
    createFrom here (segments.filter fun s => (Path.Component.ofSegment? s).isSome) d =
      createFrom here segments d := by
  induction segments generalizing here d with
  | nil => rfl
  | cons segment segments ih =>
    cases step : Path.Component.ofSegment? segment with
    | none =>
      rw [List.filter_cons_of_neg (by simp [step]), ih, createFrom, step]
    | some c =>
      rw [List.filter_cons_of_pos (by simp [step])]
      by_cases up : c = .parent
      · subst up
        rw [createFrom, createFrom, step]
        exact ih _ _
      · rw [createFrom_cons_down step up, createFrom_cons_down step up]
        simp only [ih]

/-- Making a directory with those above it goes step by step from where the path starts. -/
theorem createDirAll_eq (possible : p.text ≠ "" → checkPath p = .ok ()) (d : Disk) :
    createDirAll p d = createFrom (d.start p) p.steps d := by
  rw [Path.steps, createFrom_filter]
  by_cases empty : p.text = ""
  · have segments : p.segments = [""] := by rw [Path.segments, empty]; rfl
    rw [segments, createDirAll, if_pos empty]
    rfl
  · rw [createDirAll_run empty, possible empty]

/-- **Creating the parent of a path that goes on along names** from a directory is creating what is not there of the
names but the last. -/
theorem createDirAll_parent (located : d.locate p = .ok base) (has : d.tree.at? base = some (.dir entries))
    (named : ∀ n ∈ names ++ [name], Path.isName n = true)
    (possible : checkPath (p.joinAll (names ++ [name])) = .ok ()) :
    ∃ q, (p.joinAll (names ++ [name])).parent? = some q ∧ createDirAll q d = createFrom base names d := by
  have nonempty := text_ne_empty_of_locate located
  obtain ⟨rest, text⟩ := Path.exists_text_joinAll nonempty fun n mem => (Path.isName_iff.mp (named n mem)).2.2.2
  have stepping : (p.joinAll (names ++ [name])).steps = (p.steps ++ names) ++ [name] := by
    rw [Path.steps_joinAll nonempty named, List.append_assoc]
  obtain ⟨q, parent, steps, absolute, behind, ending⟩ := Path.exists_parent? stepping
  refine ⟨q, parent, ?_⟩
  have fits : q.text ≠ "" → checkPath q = .ok () := by
    intro nonempty'
    have whole : p.joinAll (names ++ [name]) = ⟨q.text ++ behind⟩ := congrArg Path.mk ending
    rw [whole] at possible
    exact checkPath_of_append nonempty' possible
  have start : d.start q = d.start p := by
    rw [Disk.start, absolute, text]
    exact start_append nonempty rest
  obtain ⟨_, _, leads⟩ := bind_eq_ok.mp located
  have busyNames : names.filter (fun s => (Path.Component.ofSegment? s).isSome) = names := by
    rw [List.filter_eq_self]
    intro n mem
    rw [Path.ofSegment?_of_isName (named n (List.mem_append_left _ mem))]
    rfl
  rw [createDirAll_eq fits, start, steps, Path.steps, ← busyNames, ← List.filter_append, createFrom_filter,
    createFrom_append leads has, busyNames]

end Disk

end ProcessorBench
