import ProcessorBench.Proofs.NormalForm
import ProcessorBench.Proofs.SelfDelimiting

/-!
# Where a class file ends

A file that parses says itself where it ends. Cut short, it is truncated, and never anything else;
with bytes behind it, those are left over and counted. So no file that parses is a proper prefix of
another one.

Two facts lead there: reading a class is self-delimiting, and the bound on the nesting of attributes
that `ClassFile.parse` takes from the length of its input is never reached.
-/

namespace ProcessorBench

open Reader

/-! ## Class files delimit themselves -/

/-- A constant ends where it ends, whatever follows. -/
theorem Constant.read_selfDelimiting (index : PoolIndex) : SelfDelimiting (Constant.read index) := by
  refine SelfDelimiting.u8.bind fun tag => ?_
  split
  case h_1 =>
    exact SelfDelimiting.u16.bind fun n => (SelfDelimiting.take n.toNat).bind fun _ => .pure _
  case h_2 | h_3 => exact SelfDelimiting.u32.bind fun _ => .pure _
  case h_4 => exact (SelfDelimiting.number 8).bind fun _ => .pure _
  case h_5 =>
    exact (SelfDelimiting.number 4).bind fun _ => (SelfDelimiting.number 4).bind fun _ => .pure _
  case h_6 | h_7 | h_13 | h_16 | h_17 => exact SelfDelimiting.u16.bind fun _ => .pure _
  case h_12 => exact SelfDelimiting.u8.bind fun _ => SelfDelimiting.u16.bind fun _ => .pure _
  case h_18 => exact .refuse _
  all_goals exact SelfDelimiting.u16.bind fun _ => SelfDelimiting.u16.bind fun _ => .pure _

/-- Constants up to a number of slots end where they end. -/
theorem ConstantPool.readUpTo_selfDelimiting (count : Nat) (pool : ConstantPool) :
    SelfDelimiting (readUpTo count pool) := by
  induction pool using readUpTo.induct count with
  | case1 pool below ih =>
    rw [readUpTo, if_pos below]
    exact (Constant.read_selfDelimiting _).bind ih
  | case2 pool reached =>
    rw [readUpTo, if_neg reached]
    exact .pure pool

/-- A pool ends where it ends. -/
theorem ConstantPool.read_selfDelimiting : SelfDelimiting ConstantPool.read :=
  SelfDelimiting.u16.bind fun count => readUpTo_selfDelimiting count.toNat empty

/-- The body of an attribute may take whatever there is, but it is read from the bytes that the
attribute announces for it. -/
theorem Attribute.read_selfDelimiting (pool : ConstantPool) (depth : Nat) :
    SelfDelimiting (Attribute.read pool depth) := by
  cases depth with
  | zero => exact .of_failing fun _ _ => nofun
  | succ depth =>
    exact SelfDelimiting.u16.bind fun _ => (SelfDelimiting.number 4).bind fun length =>
      (SelfDelimiting.take length).bind fun _ => (SelfDelimiting.ofExcept _).bind fun _ =>
        (SelfDelimiting.ofExcept _).bind fun _ => .pure _

/-- A member of a class ends where it ends. -/
theorem Member.read_selfDelimiting (pool : ConstantPool) (depth : Nat) :
    SelfDelimiting (Member.read pool depth) :=
  SelfDelimiting.u16.bind fun _ => SelfDelimiting.u16.bind fun _ => SelfDelimiting.u16.bind fun _ =>
    (SelfDelimiting.counted (Attribute.read_selfDelimiting pool depth)).bind fun _ => .pure _

/-- **Reading a class is self-delimiting.** -/
theorem ClassFile.read_selfDelimiting (depth : Nat) : SelfDelimiting (ClassFile.read depth) := by
  have members (pool : ConstantPool) :=
    SelfDelimiting.counted (Member.read_selfDelimiting pool depth)
  have attributes (pool : ConstantPool) :=
    SelfDelimiting.counted (Attribute.read_selfDelimiting pool depth)
  refine SelfDelimiting.u32.bind fun found => ?_
  split
  · exact SelfDelimiting.u16.bind fun _ => SelfDelimiting.u16.bind fun _ =>
      ConstantPool.read_selfDelimiting.bind fun pool => SelfDelimiting.u16.bind fun _ =>
        SelfDelimiting.u16.bind fun _ => SelfDelimiting.u16.bind fun _ =>
          (SelfDelimiting.counted .u16).bind fun _ => (members pool).bind fun _ =>
            (members pool).bind fun _ => (attributes pool).bind fun _ => .pure _
  · -- Any other magic number is refused, so there is nothing to delimit.
    refine .of_failing fun bytes p run => ?_
    obtain ⟨_, _, refused, _⟩ := stateBind_eq_ok.mp run
    cases refused

/-! ## The bound on the nesting -/

theorem ExceptionHandler.read_selfDelimiting : SelfDelimiting ExceptionHandler.read :=
  SelfDelimiting.u16.bind fun _ => SelfDelimiting.u16.bind fun _ =>
    SelfDelimiting.u16.bind fun _ => SelfDelimiting.u16.bind fun _ => .pure _

/-- Only code and records read attributes inside their bodies. -/
theorem AttributeBody.read_congr {nested nested' : Reader ClassError Attribute} {data : Bytes}
    (h : AgreeUpTo data.length nested nested') (depth : Nat) (kind : AttributeKind) :
    AttributeBody.read nested depth kind data = AttributeBody.read nested' depth kind data := by
  cases kind with
  | code =>
    refine AgreeUpTo.same (n := data.length) ?_ data (Nat.le_refl _)
    exact SelfDelimiting.u16.agree.bind fun _ => SelfDelimiting.u16.agree.bind fun _ =>
      (SelfDelimiting.number 4).agree.bind fun length =>
        (SelfDelimiting.take length).agree.bind fun _ =>
          ExceptionHandler.read_selfDelimiting.counted.agree.bind fun _ =>
            h.counted.bind fun _ => .pure _
  | record =>
    refine AgreeUpTo.same (n := data.length) ?_ data (Nat.le_refl _)
    have component := SelfDelimiting.u16.agree.bind fun name =>
      SelfDelimiting.u16.agree.bind fun descriptor => h.counted.bind fun attributes =>
        .pure (⟨name, descriptor, attributes⟩ : RecordComponent)
    exact component.counted.bind fun _ => .pure _
  | _ => rfl

/-- **Bounds above the number of bytes make no difference**: an attribute takes more bytes than its
body has, so the bound for the attributes inside it is above their bytes again. -/
theorem Attribute.read_agree (pool : ConstantPool) {n depth depth' : Nat} (few : n < depth)
    (few' : n < depth') : AgreeUpTo n (Attribute.read pool depth) (Attribute.read pool depth') := by
  induction depth generalizing n depth' with
  | zero => omega
  | succ depth ih =>
    obtain ⟨depth', rfl⟩ : ∃ d, depth' = d + 1 := ⟨depth' - 1, by omega⟩
    refine SelfDelimiting.u16.agree.bind_of_ok fun bytes name rest le run => ?_
    refine (SelfDelimiting.number 4).agree.bind_of_ok fun bytes' length rest' le' run' => ?_
    refine (SelfDelimiting.take length).agree.bind_of_ok fun bytes'' data _ le'' run'' => ?_
    have inside : data.length < n := by
      rw [u16_eq_ok.mp run, List.length_append] at le
      rw [(number_eq_ok.mp run').2, List.length_append] at le'
      rw [(take_eq_ok.mp run'').2, List.length_append] at le''
      have : (Bytes.ofUInt16 name).length = 2 := rfl
      omega
    have body := AttributeBody.read_congr (ih (by omega : data.length < depth)
      (by omega : data.length < depth')) (data.length + 1)
    refine (SelfDelimiting.ofExcept _).agree.bind fun text => ?_
    simp only [AttributeBody.readWhole, body]
    exact (SelfDelimiting.ofExcept _).agree.bind fun _ => .pure _

/-- Any bounds above the number of bytes read a member in the same way. -/
theorem Member.read_agree (pool : ConstantPool) {n depth depth' : Nat} (few : n < depth)
    (few' : n < depth') : AgreeUpTo n (Member.read pool depth) (Member.read pool depth') :=
  SelfDelimiting.u16.agree.bind fun _ => SelfDelimiting.u16.agree.bind fun _ =>
    SelfDelimiting.u16.agree.bind fun _ =>
      (Attribute.read_agree pool few few').counted.bind fun _ => .pure _

namespace ClassFile

/-- Any bounds above the number of bytes read a class in the same way. -/
theorem read_agree {n depth depth' : Nat} (few : n < depth) (few' : n < depth') :
    AgreeUpTo n (ClassFile.read depth) (ClassFile.read depth') := by
  have members (pool : ConstantPool) := (Member.read_agree pool few few').counted
  have attributes (pool : ConstantPool) := (Attribute.read_agree pool few few').counted
  refine SelfDelimiting.u32.agree.bind fun found => ?_
  split
  · exact SelfDelimiting.u16.agree.bind fun _ => SelfDelimiting.u16.agree.bind fun _ =>
      ConstantPool.read_selfDelimiting.agree.bind fun pool =>
        SelfDelimiting.u16.agree.bind fun _ => SelfDelimiting.u16.agree.bind fun _ =>
          SelfDelimiting.u16.agree.bind fun _ => (SelfDelimiting.counted .u16).agree.bind fun _ =>
            (members pool).bind fun _ => (members pool).bind fun _ =>
              (attributes pool).bind fun _ => .pure _
  · exact (SelfDelimiting.refuse _).agree.bind_of_ok fun _ _ _ _ => nofun

/-- A file that parses is what reading its class takes, under any bound that is not reached. -/
theorem takes_of_parse {bytes : Bytes} {c : ClassFile} {depth : Nat} (parsed : parse bytes = .ok c)
    (deep : bytes.length < depth) : (ClassFile.read depth).Takes bytes c := by
  have run : ClassFile.read depth bytes = .ok (c, []) := by
    rw [(read_agree deep (Nat.lt_succ_self _)).same bytes (Nat.le_refl _)]
    exact parse_eq_ok_iff_read.mp parsed
  obtain ⟨front, whole, taken⟩ := read_selfDelimiting depth _ _ _ run
  rw [List.append_nil] at whole
  exact whole ▸ taken

/-! ## The extent of a class file -/

/-- **A file that parses, cut short, is truncated.** -/
theorem parse_of_append {p q : Bytes} {c : ClassFile} (parsed : parse (p ++ q) = .ok c)
    (cut : q ≠ []) : ∃ offset needed, parse p = .error (.truncated offset needed) ∧
      offset ≤ p.length ∧ 1 ≤ needed ∧ needed ≤ q.length := by
  obtain ⟨left, lacking, run, _, pos, enough⟩ :=
    (takes_of_parse parsed (Nat.lt_succ_self _)).short p q rfl cut
  refine ⟨p.length - left, lacking, ?_, Nat.sub_le _ _, pos, enough⟩
  have fewer : p.length < (p ++ q).length + 1 := by
    rw [List.length_append]
    omega
  rw [(read_agree fewer (Nat.lt_succ_self _)).same p (Nat.le_refl _)] at run
  rw [parse, run]

/-- **A file that parses, with bytes behind it, is refused for these bytes.** -/
theorem parse_append {x y : Bytes} {c : ClassFile} (parsed : parse x = .ok c) (more : y ≠ []) :
    parse (x ++ y) = .error (.trailingBytes "ClassFile" y.length) := by
  have fewer : x.length < (x ++ y).length + 1 := by
    rw [List.length_append]
    omega
  rw [parse, (takes_of_parse parsed fewer).whole y]
  obtain ⟨b, y, rfl⟩ := List.exists_cons_of_ne_nil more
  rfl

/-- No class file starts with another one. -/
theorem eq_of_prefix {x y : Bytes} {c d : ClassFile} (parsed : parse x = .ok c) (parsed' : parse y = .ok d)
    (start : x <+: y) : y = x := by
  obtain ⟨more, rfl⟩ := start
  by_cases none : more = []
  · rw [none, List.append_nil]
  · rw [parse_append parsed none] at parsed'
    cases parsed'

/-- **A class file has an exact extent.** Every proper prefix of it is truncated, lacking no more
than was cut off, and whatever is longer has trailing bytes. So no other class file starts with it. -/
theorem parse_extent {x : Bytes} {c : ClassFile} (parsed : parse x = .ok c) :
    (∀ p, p <+: x → p ≠ x → ∃ offset needed, parse p = .error (.truncated offset needed) ∧
      offset ≤ p.length ∧ 1 ≤ needed ∧ p.length + needed ≤ x.length) ∧
    (∀ y, y ≠ [] → parse (x ++ y) = .error (.trailingBytes "ClassFile" y.length)) ∧
    ∀ x' c', parse x' = .ok c' → x <+: x' → x' = x := by
  refine ⟨?_, fun y more => parse_append parsed more, fun _ _ parsed' => eq_of_prefix parsed parsed'⟩
  rintro p ⟨q, rfl⟩ proper
  have cut : q ≠ [] := by
    rintro rfl
    exact proper (List.append_nil p).symm
  obtain ⟨offset, needed, run, le, pos, enough⟩ := parse_of_append parsed cut
  refine ⟨offset, needed, run, le, pos, ?_⟩
  rw [List.length_append]
  omega

/-- A small class file: what is left of it after 40 bytes, and with two bytes more. -/
theorem parse_extent_compiled :
    (∃ offset needed, parse (compiled.bytes.take 40) = .error (.truncated offset needed) ∧
      offset ≤ 40 ∧ 1 ≤ needed ∧ 40 + needed ≤ 61) ∧
    parse (compiled.bytes ++ [0, 0]) = .error (.trailingBytes "ClassFile" 2) ∧
    ∀ x' c', parse x' = .ok c' → compiled.bytes <+: x' → x' = compiled.bytes :=
  have ⟨cut, longer, longest⟩ := parse_extent parse_compiled
  ⟨cut _ (List.take_prefix 40 _) (by decide), longer [0, 0] (by decide), longest⟩

end ClassFile

end ProcessorBench
