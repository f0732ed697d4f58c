import ProcessorBench.ClassFile.Basic

/-!
# The references of a class

`ClassOf.mapRefs` replaces every reference of a class in one fixed order: class, superclass,
interfaces, fields, methods, attributes, and inside an attribute its name before its body. A
reference that may be index 0 for "none" is told apart from one that may not, and a code array is
handed over whole. Renumbering a pool and resolving a class are both instances.
-/

namespace ProcessorBench

/-- What becomes of the references and of the code of a class, in a monad `m`. -/
structure RefMap (m : Type → Type) (ι κ β γ : Type) where
  /-- A reference that has to name a constant. -/
  required : ι → m κ
  /-- A reference that index 0 leaves out. -/
  optional : ι → m κ
  code : β → m γ

section
variable {m : Type → Type} [Monad m] {ι κ β γ : Type}

/-- Replace the references of a handler. -/
def ExceptionHandlerOf.mapRefs (f : RefMap m ι κ β γ) (h : ExceptionHandlerOf ι) :
    m (ExceptionHandlerOf κ) :=
  return ⟨h.startPc, h.endPc, h.handlerPc, ← f.optional h.catchType⟩

/-- Replace the references of an inner class. -/
def InnerClassOf.mapRefs (f : RefMap m ι κ β γ) (c : InnerClassOf ι) : m (InnerClassOf κ) :=
  return ⟨← f.required c.inner, ← f.optional c.outer, ← f.optional c.name, c.access⟩

/-- Replace the references of a bootstrap method. -/
def BootstrapMethodOf.mapRefs (f : RefMap m ι κ β γ) (b : BootstrapMethodOf ι) :
    m (BootstrapMethodOf κ) :=
  return ⟨← f.required b.handle, ← b.arguments.mapM f.required⟩

mutual

/-- Replace the references of a body. -/
def AttributeBodyOf.mapRefs (f : RefMap m ι κ β γ) :
    AttributeBodyOf ι β → m (AttributeBodyOf κ γ)
  | .code code => return .code (← code.mapRefs f)
  | .constantValue value => return .constantValue (← f.required value)
  | .exceptions classes => return .exceptions (← classes.mapM f.required)
  | .signature text => return .signature (← f.required text)
  | .sourceFile name => return .sourceFile (← f.required name)
  | .innerClasses classes => return .innerClasses (← classes.mapM (·.mapRefs f))
  | .enclosingMethod owner method =>
    return .enclosingMethod (← f.required owner) (← f.optional method)
  | .nestHost host => return .nestHost (← f.required host)
  | .nestMembers classes => return .nestMembers (← classes.mapM f.required)
  | .permittedSubclasses classes => return .permittedSubclasses (← classes.mapM f.required)
  | .bootstrapMethods methods => return .bootstrapMethods (← methods.mapM (·.mapRefs f))
  | .record components => return .record (← RecordComponentOf.mapRefsList f components)
  | .annotationDefault value => return .annotationDefault (← value.mapRefs f.required)
  | .annotations annotations =>
    return .annotations (← annotations.mapM (·.mapRefs f.required))
  | .parameterAnnotations parameters =>
    return .parameterAnnotations
      (← parameters.mapM fun annotations => annotations.mapM (·.mapRefs f.required))
  | .typeAnnotations annotations =>
    return .typeAnnotations (← annotations.mapM (·.mapRefs f.required))
  | .marker => return .marker
  | .raw bytes => return .raw bytes

/-- Replace the references of an attribute: its name, then its body. -/
def AttributeOf.mapRefs (f : RefMap m ι κ β γ) : AttributeOf ι β → m (AttributeOf κ γ)
  | ⟨name, body⟩ => return ⟨← f.required name, ← body.mapRefs f⟩

/-- Replace the references of a list of attributes. -/
def AttributeOf.mapRefsList (f : RefMap m ι κ β γ) :
    List (AttributeOf ι β) → m (List (AttributeOf κ γ))
  | [] => pure []
  | a :: attributes => return (← a.mapRefs f) :: (← AttributeOf.mapRefsList f attributes)

/-- Replace the references of a method's code: the code array, the handlers, the attributes. -/
def CodeOf.mapRefs (f : RefMap m ι κ β γ) : CodeOf ι β → m (CodeOf κ γ)
  | ⟨maxStack, maxLocals, code, handlers, attributes⟩ => do
    let code ← f.code code
    let handlers ← handlers.mapM (·.mapRefs f)
    let attributes ← AttributeOf.mapRefsList f attributes
    return ⟨maxStack, maxLocals, code, handlers, attributes⟩

/-- Replace the references of a record component. -/
def RecordComponentOf.mapRefs (f : RefMap m ι κ β γ) :
    RecordComponentOf ι β → m (RecordComponentOf κ γ)
  | ⟨name, descriptor, attributes⟩ =>
    return ⟨← f.required name, ← f.required descriptor, ← AttributeOf.mapRefsList f attributes⟩

/-- Replace the references of a list of record components. -/
def RecordComponentOf.mapRefsList (f : RefMap m ι κ β γ) :
    List (RecordComponentOf ι β) → m (List (RecordComponentOf κ γ))
  | [] => pure []
  | c :: components => return (← c.mapRefs f) :: (← RecordComponentOf.mapRefsList f components)

end

/-- Replace the references of a field or a method. -/
def MemberOf.mapRefs (f : RefMap m ι κ β γ) (member : MemberOf ι β) : m (MemberOf κ γ) :=
  return { access := member.access
           name := ← f.required member.name
           descriptor := ← f.required member.descriptor
           attributes := ← AttributeOf.mapRefsList f member.attributes }

/-- Replace the references of a class. -/
def ClassOf.mapRefs (f : RefMap m ι κ β γ) (c : ClassOf ι β) : m (ClassOf κ γ) := do
  let thisClass ← f.required c.thisClass
  let superClass ← f.optional c.superClass
  let interfaces ← c.interfaces.mapM f.required
  let fields ← c.fields.mapM (·.mapRefs f)
  let methods ← c.methods.mapM (·.mapRefs f)
  let attributes ← AttributeOf.mapRefsList f c.attributes
  return { minorVersion := c.minorVersion, majorVersion := c.majorVersion, access := c.access,
           thisClass, superClass, interfaces, fields, methods, attributes }

end

end ProcessorBench
