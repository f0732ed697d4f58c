import ProcessorBench.Proofs.Numbering

/-!
# Where constants go

The pool of a normal form, described without building one. A `Layout` lists constants in the order
in which a pool gets them: each once, where it is first used, and after what it refers to. Its slots
are numbered from 1, so a constant stands behind the slots of those before it: `Layout.position`.

`ClassView.layout` is the layout of a view: first what the code directly inside methods loads with
one byte, then everything in the order in which references are replaced. It can be numbered when the
slots do not run out and when every constant that one byte has to lead to stands below 256:
`Layout.Fits`.
-/

namespace ProcessorBench

/-! ## Equality of constants -/

namespace ConstantTree

/-- Whether two constants are the same, with everything they refer to. -/
def same : ConstantTree → ConstantTree → Bool
  | ⟨.utf8 a⟩, ⟨.utf8 b⟩ => a = b
  | ⟨.integer a⟩, ⟨.integer b⟩ => a = b
  | ⟨.float a⟩, ⟨.float b⟩ => a = b
  | ⟨.long a⟩, ⟨.long b⟩ => a = b
  | ⟨.double a⟩, ⟨.double b⟩ => a = b
  | ⟨.classInfo s⟩, ⟨.classInfo t⟩ => same s t
  | ⟨.string s⟩, ⟨.string t⟩ => same s t
  | ⟨.fieldRef s s'⟩, ⟨.fieldRef t t'⟩ => same s t && same s' t'
  | ⟨.methodRef s s'⟩, ⟨.methodRef t t'⟩ => same s t && same s' t'
  | ⟨.interfaceMethodRef s s'⟩, ⟨.interfaceMethodRef t t'⟩ => same s t && same s' t'
  | ⟨.nameAndType s s'⟩, ⟨.nameAndType t t'⟩ => same s t && same s' t'
  | ⟨.methodHandle a s⟩, ⟨.methodHandle b t⟩ => a = b && same s t
  | ⟨.methodType s⟩, ⟨.methodType t⟩ => same s t
  | ⟨.dynamic a s⟩, ⟨.dynamic b t⟩ => a = b && same s t
  | ⟨.invokeDynamic a s⟩, ⟨.invokeDynamic b t⟩ => a = b && same s t
  | ⟨.moduleInfo s⟩, ⟨.moduleInfo t⟩ => same s t
  | ⟨.packageInfo s⟩, ⟨.packageInfo t⟩ => same s t
  | _, _ => false

/-- A tree is the same as itself. -/
theorem same_self (t : ConstantTree) : same t t = true := by
  induction t using ConstantTree.induction with
  | step c ih => cases c <;> simp_all [same, ConstantOf.refs]

/-- Trees that are the same are equal. -/
theorem eq_of_same {s t : ConstantTree} (h : same s t = true) : s = t := by
  fun_induction same s t <;> simp_all

instance : DecidableEq ConstantTree := fun s t =>
  decidable_of_iff (same s t) ⟨eq_of_same, fun h => h ▸ same_self s⟩

end ConstantTree

/-! ## Layouts -/

/-- Constants in the order in which a pool gets them, and those that one byte has to lead to. -/
structure Layout where
  placed : List ConstantTree
  narrow : List ConstantTree

namespace Layout

/-- Nothing placed yet. -/
def empty : Layout := ⟨[], []⟩

/-- How many slots some constants take. -/
def slots (ts : List ConstantTree) : Nat := (ts.map (·.constant.slots)).sum

/-- How many slots there are, slot 0 included. -/
def slotCount (l : Layout) : Nat := 1 + slots l.placed

/-- The slot of a constant: that behind the constants before it. -/
def position (l : Layout) (t : ConstantTree) : Nat := 1 + slots (l.placed.takeWhile (· ≠ t))

/-- The layout with a constant at the end, unless it is there already. -/
def add (l : Layout) (t : ConstantTree) : Layout :=
  { l with placed := if t ∈ l.placed then l.placed else l.placed ++ [t] }

/-- The layout with one more constant that one byte has to lead to. -/
def load (l : Layout) (t : ConstantTree) : Layout := { l with narrow := l.narrow ++ [t] }

/-- The slots can be numbered, and one byte holds the numbers that it has to. -/
structure Fits (l : Layout) : Prop where
  room : l.slotCount < UInt16.size
  loads : ∀ t ∈ l.narrow, l.position t < 256

end Layout

/-! ## The layout of a view -/

/-- A computation that lays constants out. -/
abbrev Placing := StateM Layout

/-- Put a constant where it is used, after what it refers to. -/
def ConstantTree.place : ConstantTree → Placing ConstantTree :=
  fold fun c l => (⟨c⟩, l.add ⟨c⟩)

/-- Put what a reference has been replaced by where it is used. -/
def placeReference : Option ConstantTree → Placing (Option ConstantTree)
  | some t => return some (← t.place)
  | none => return none

/-- Put an operand where it is used. -/
def placeOperand : OperandWidth → ConstantTree → Placing ConstantTree
  | .wide, t => t.place
  | .narrow, t => do
    let t ← t.place
    modify (·.load t)
    return t

/-- Laying out as a map of references. -/
def placeMap : RefMap Placing (Option ConstantTree) (Option ConstantTree) CodeView CodeView where
  required := placeReference
  optional := placeReference
  code v := v.mapM (·.mapRef placeOperand)

/-- Put what a method's code loads with one byte. -/
def placeNarrow (method : MemberOf (Option ConstantTree) CodeView) : Placing Unit :=
  method.attributes.forM fun a =>
    match a.body with
    | .code c => c.code.narrow.forM fun t => discard t.place
    | _ => pure ()

/-- Lay a class out: what methods load with one byte, and then everything. -/
def ClassView.placing (v : ClassView) : Placing ClassView := do
  v.methods.forM placeNarrow
  v.mapRefs placeMap

/-- The layout of a view. -/
def ClassView.layout (v : ClassView) : Layout := (v.placing .empty).2

end ProcessorBench
