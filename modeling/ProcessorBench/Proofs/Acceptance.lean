import Mathlib.Order.Interval.Finset.Nat
import ProcessorBench.Proofs.Capacity
import ProcessorBench.Proofs.NormalForm

/-!
# Which classes have a normal form

A class that parses, whose references lead somewhere and whose code can be cut into instructions has
a normal form exactly when its layout fits: `ClassFile.normalize_ok_iff`. Not every such class does.
A string that is loaded takes a slot, and its text takes another in front of it, so the 255 slots
that one byte reaches hold 127 strings (`PoolBuilder.Holds.card_lt`), while a class can load 255 of
them.
-/

namespace ProcessorBench

/-! ## What one byte reaches -/

/-- Different constants stand in different slots. -/
theorem ConstantPool.card_image_slots {pool : ConstantPool} {texts : Finset Bytes}
    {slot : Bytes → PoolIndex} {t : Bytes → ConstantTree} (injective : Function.Injective t)
    (there : ∀ s ∈ texts, pool.tree (slot s) = .ok (t s)) :
    (texts.image fun s => (slot s).toNat).card = texts.card :=
  Finset.card_image_of_injOn fun s hs s' hs' same => by
    have found := there s hs
    rw [UInt16.toNat_inj.mp same, there s' hs'] at found
    exact (injective (Except.ok.inj found)).symm

/-- A string that one byte leads to stands behind its text, and both stand below 256. -/
theorem PoolBuilder.Holds.string_slots {b : PoolBuilder} {l : Layout} (hb : b.Holds l) {s : Bytes}
    (load : ⟨.string ⟨.utf8 s⟩⟩ ∈ l.narrow) :
    ∃ i j, b.pool.tree i = .ok ⟨.string ⟨.utf8 s⟩⟩ ∧ b.pool.tree j = .ok ⟨.utf8 s⟩ ∧
      0 < j.toNat ∧ j.toNat < i.toNat ∧ i.toNat < 256 := by
  obtain ⟨placed, small⟩ := hb.loads _ load
  obtain ⟨i, hi⟩ := hb.placed _ placed
  obtain ⟨c, hc, trees⟩ := hb.sound.acyclic.tree_eq_ok.mp hi
  have tag := ConstantOf.tag_of_mapRefs trees
  cases c with
  | string j =>
    obtain ⟨t, ht, same⟩ := bind_eq_ok.mp trees
    cases same
    obtain ⟨below, d, hd⟩ := hb.sound.earlier i _ hc j (by simp [ConstantOf.refs])
    have positive : j ≠ 0 := by
      rintro rfl
      exact hb.sound.get_zero d hd
    refine ⟨i, j, hi, ht, Nat.pos_of_ne_zero fun zero => positive (UInt16.toNat_inj.mp zero),
      UInt16.lt_iff_toNat_lt.mp below, ?_⟩
    rw [(hb.position i _ hi).2]
    exact small
  | _ => cases tag

/-- **At most 127 strings can be loaded with one byte.** -/
theorem PoolBuilder.Holds.card_lt {b : PoolBuilder} {l : Layout} (hb : b.Holds l)
    {texts : Finset Bytes} (loads : ∀ s ∈ texts, ⟨.string ⟨.utf8 s⟩⟩ ∈ l.narrow) :
    texts.card < 128 := by
  have slots := fun s mem => hb.string_slots (loads s mem)
  choose! i j hi hj positive below small using slots
  have strings := ConstantPool.card_image_slots (fun s s' same => by cases same; rfl) hi
  have utf8s := ConstantPool.card_image_slots (fun s s' same => by cases same; rfl) hj
  -- Each string takes a slot and its text another one, and all of them are below 256, but not at 0.
  have apart : Disjoint (texts.image fun s => (i s).toNat) (texts.image fun s => (j s).toNat) := by
    rw [Finset.disjoint_left]
    intro n hn hn'
    obtain ⟨s, hs, rfl⟩ := Finset.mem_image.mp hn
    obtain ⟨s', hs', same⟩ := Finset.mem_image.mp hn'
    have found := hj s' hs'
    rw [UInt16.toNat_inj.mp same, hi s hs] at found
    cases found
  have inside : (texts.image fun s => (i s).toNat) ∪ (texts.image fun s => (j s).toNat) ⊆
      Finset.Ioo 0 256 := by
    intro n hn
    rw [Finset.mem_union, Finset.mem_image, Finset.mem_image] at hn
    rw [Finset.mem_Ioo]
    rcases hn with ⟨s, hs, rfl⟩ | ⟨s, hs, rfl⟩
    · exact ⟨Nat.lt_trans (positive s hs) (below s hs), small s hs⟩
    · exact ⟨positive s hs, Nat.lt_trans (below s hs) (small s hs)⟩
  have count := Finset.card_le_card inside
  rw [Finset.card_union_of_disjoint apart, strings, utf8s, Nat.card_Ioo] at count
  omega

namespace ClassFile

variable {bytes : Bytes} {c : ClassFile} {v : ClassView}

/-- A class that loads more strings than that with one byte has no normal form. -/
theorem normalize_ne_ok_of_strings (h : parse bytes = .ok c) (acyclic : c.pool.Acyclic)
    (hv : c.debugFree.view = .ok v) {texts : Finset Bytes}
    (loads : ∀ s ∈ texts, ⟨.string ⟨.utf8 s⟩⟩ ∈ v.layout.narrow) (many : 128 ≤ texts.card)
    (written : Bytes) : normalize bytes ≠ .ok written := by
  intro run
  rcases normalize_outcome h acyclic hv with ⟨⟨b, hb⟩, _⟩ | ⟨_, failed⟩ | ⟨_, failed⟩
  · exact absurd (hb.card_lt loads) (Nat.not_lt.mpr many)
  · cases run.symm.trans failed
  · cases run.symm.trans failed

/-! ## Exactly those that fit -/

/-- The layout of a class takes no more slots than the class does. -/
theorem slotCount_layout_le (h : parse bytes = .ok c) (acyclic : c.pool.Acyclic)
    (hv : c.debugFree.view = .ok v) : v.layout.slotCount ≤ c.pool.slotCount := by
  obtain ⟨count, legal, _⟩ := parse_eq_ok.mp h
  obtain ⟨cs, _, built⟩ := legal.pool.built
  exact ClassView.slotCount_layout_le (c := c.debugFree) acyclic ⟨cs, built⟩ legal.pool.slotCount_le hv

/-- What a class loads with one byte is laid out. -/
theorem position_lt_slotCount (acyclic : c.pool.Acyclic) (hv : c.debugFree.view = .ok v)
    {t : ConstantTree} (mem : t ∈ v.layout.narrow) : v.layout.position t < v.layout.slotCount :=
  Layout.position_lt ((ClassView.layout_within (c := c.debugFree) acyclic hv).loaded mem)

/-- **A class has a normal form exactly when its layout fits.** It does if the class has 256 slots
at most. Otherwise one byte does not hold the new index of what it loads, unless there is no number
for one of the slots, and then the class had more slots than can be numbered itself. -/
theorem normalize_ok_iff (h : parse bytes = .ok c) (acyclic : c.pool.Acyclic)
    (hv : c.debugFree.view = .ok v) :
    ((∃ written, normalize bytes = .ok written) ↔ v.layout.Fits) ∧
      (c.pool.slotCount ≤ 256 → v.layout.Fits) ∧
      (c.pool.slotCount < UInt16.size → ¬ v.layout.Fits →
        (∃ t ∈ v.layout.narrow, 256 ≤ v.layout.position t) ∧
          normalize bytes = .error (.overflow .renumberedLoadOperand)) ∧
      ∀ e, normalize bytes = .error e →
        e = .overflow .renumberedLoadOperand ∨
          UInt16.size ≤ c.pool.slotCount ∧ e = .overflow .poolSlots := by
  have shorter := slotCount_layout_le h acyclic hv
  have small (few : c.pool.slotCount ≤ 256) : v.layout.Fits := by
    refine ⟨Nat.lt_of_le_of_lt (shorter.trans few) (by decide), fun t mem => ?_⟩
    exact Nat.lt_of_lt_of_le (position_lt_slotCount acyclic hv mem) (shorter.trans few)
  rcases normalize_outcome h acyclic hv with
    ⟨⟨b, hb⟩, written, run⟩ | ⟨few, run⟩ | ⟨⟨t, mem, far⟩, run⟩
  · rw [run]
    exact ⟨⟨fun _ => hb.fits, fun _ => ⟨written, rfl⟩⟩, small, fun _ not => absurd hb.fits not, nofun⟩
  · have large := few.trans shorter
    rw [run]
    refine ⟨⟨nofun, fun fits => absurd fits.room (Nat.not_lt.mpr few)⟩, small, fun room => ?_,
      fun e he => ?_⟩
    · exact absurd room (Nat.not_lt.mpr large)
    · cases he
      exact .inr ⟨large, rfl⟩
  · rw [run]
    refine ⟨⟨nofun, fun fits => ?_⟩, small, fun _ _ => ⟨⟨t, mem, far⟩, rfl⟩, fun e he => ?_⟩
    · exact absurd (fits.loads t mem) (Nat.not_lt.mpr far)
    · cases he
      exact .inl rfl

/-- For a small class all three cases are settled by where its one load with one byte goes. -/
theorem normalize_ok_iff_compiled :
    ((∃ written, normalize compiled.bytes = .ok written) ↔ plainView.layout.Fits) ∧
      (compiled.pool.slotCount ≤ 256 → plainView.layout.Fits) ∧
      (compiled.pool.slotCount < UInt16.size → ¬ plainView.layout.Fits →
        (∃ t ∈ plainView.layout.narrow, 256 ≤ plainView.layout.position t) ∧
          normalize compiled.bytes = .error (.overflow .renumberedLoadOperand)) ∧
      ∀ e, normalize compiled.bytes = .error e →
        e = .overflow .renumberedLoadOperand ∨
          UInt16.size ≤ compiled.pool.slotCount ∧ e = .overflow .poolSlots :=
  normalize_ok_iff parse_compiled acyclic_compiled view_compiled

/-! ## A class that does not fit -/

/-- The text of the string that `loads` loads as the `n`th. -/
def loadedText (n : Nat) : Bytes := [UInt8.ofNat (65 + n / 16), UInt8.ofNat (65 + n % 16)]

/-- That string. -/
def loadedString (n : Nat) : ConstantTree := ⟨.string ⟨.utf8 (loadedText n)⟩⟩

/-- Load the string in slot `n + 1` and drop it. -/
def loadCode (n : Nat) : Bytes := [0x12, UInt8.ofNat (n + 1), 0x57]

/-- The instructions that load a constant and drop it. -/
def loadInstructions {ι : Type} (t : ι) : List (InstructionOf ι) :=
  [⟨0x12, some (.narrow, t), []⟩, ⟨0x57, none, []⟩]

/-- The constants of `loads`: 128 strings, their texts, and what the class itself needs. -/
def loadsConstants : List Constant :=
  (List.range 128).map (fun n => .string (UInt16.ofNat (129 + n))) ++
    ((List.range 128).map (fun n => .utf8 (loadedText n)) ++
      [.classInfo 258, .utf8 [65], .utf8 [67, 111, 100, 101], .utf8 [109], .utf8 [40, 41, 86]])

/-- A class `A` whose only method `m` loads the strings of slots 1 to 128 one after another. -/
def loads : ClassFile where
  minorVersion := 0
  majorVersion := 52
  access := ⟨0x21⟩
  thisClass := 257
  superClass := 0
  interfaces := []
  fields := []
  methods := [⟨⟨9⟩, 260, 261,
    [⟨259, .code ⟨1, 0, (List.range 128).flatMap loadCode ++ [0xb1], [], []⟩⟩]⟩]
  attributes := []
  pool := loadsConstants.foldl ConstantPool.push .empty

/-- What `loads` says. -/
def loadsView : ClassView where
  minorVersion := 0
  majorVersion := 52
  access := ⟨0x21⟩
  thisClass := some ⟨.classInfo ⟨.utf8 [65]⟩⟩
  superClass := none
  interfaces := []
  fields := []
  methods := [⟨⟨9⟩, some ⟨.utf8 [109]⟩, some ⟨.utf8 [40, 41, 86]⟩,
    [⟨some ⟨.utf8 [67, 111, 100, 101]⟩, .code ⟨1, 0,
      (List.range 128).flatMap (fun n => loadInstructions (loadedString n)) ++ [⟨0xb1, none, []⟩],
      [], []⟩⟩]⟩]
  attributes := []

/-- The pool is the one of the constants in their order. -/
theorem pool_loads : loads.pool = loadsConstants.foldl ConstantPool.push .empty := by rw [loads]

/-- The class has one attribute, the code of its method. -/
theorem all_loads : loads.all =
    [⟨259, .code ⟨1, 0, (List.range 128).flatMap loadCode ++ [0xb1], [], []⟩⟩] := by
  simp only [ClassOf.all, loads, AttributeOf.allList, AttributeOf.all, AttributeBodyOf.all, CodeOf.all,
    List.flatMap_cons, List.flatMap_nil, List.append_nil, List.nil_append]

/-- The constants stand in the pool in the order of the list, from slot 1 on. -/
theorem get_loads {n : Nat} {c : Constant} (h : loadsConstants[n]? = some c) :
    loads.pool.get (UInt16.ofNat (n + 1)) = .ok c := by
  have length : loadsConstants.length = 261 := by simp [loadsConstants]
  obtain ⟨small, _⟩ := List.getElem?_eq_some_iff.mp h
  rw [pool_loads]
  refine ConstantPool.get_built (fun c mem => ?_) h (by simp only [UInt16.size]; omega)
  simp only [loadsConstants, List.mem_append, List.mem_map, List.mem_cons, List.not_mem_nil] at mem
  rcases mem with ⟨_, _, rfl⟩ | ⟨_, _, rfl⟩ | rfl | rfl | rfl | rfl | rfl | mem
  all_goals first | rfl | cases mem

/-- The strings that are loaded stand in the first 128 slots. -/
theorem get_loaded {n : Nat} (h : n < 128) :
    loads.pool.get (UInt8.ofNat (n + 1)).toUInt16 = .ok (.string (UInt16.ofNat (129 + n))) := by
  have slot : (UInt8.ofNat (n + 1)).toUInt16 = UInt16.ofNat (n + 1) := by
    refine UInt16.toNat_inj.mp ?_
    simp
    omega
  rw [slot]
  refine get_loads ?_
  rw [loadsConstants, List.getElem?_append_left (by simpa)]
  simp [h]

/-- The texts of these strings stand behind them. -/
theorem get_loadedText {n : Nat} (h : n < 128) :
    loads.pool.get (UInt16.ofNat (129 + n)) = .ok (.utf8 (loadedText n)) := by
  have entry : loadsConstants[128 + n]? = some (.utf8 (loadedText n)) := by
    rw [loadsConstants, List.getElem?_append_right (by simp), List.getElem?_append_left (by simpa)]
    simp [h]
  rw [show 129 + n = 128 + n + 1 by omega]
  exact get_loads entry

/-- The last five slots hold the names that the class needs. -/
theorem get_named : loads.pool.get 257 = .ok (.classInfo 258) ∧ loads.pool.get 258 = .ok (.utf8 [65]) ∧
    loads.pool.get 259 = .ok (.utf8 [67, 111, 100, 101]) ∧ loads.pool.get 260 = .ok (.utf8 [109]) ∧
    loads.pool.get 261 = .ok (.utf8 [40, 41, 86]) := by
  refine ⟨@get_loads 256 _ ?_, @get_loads 257 _ ?_, @get_loads 258 _ ?_, @get_loads 259 _ ?_,
    @get_loads 260 _ ?_⟩ <;>
  simp [loadsConstants]

/-- No constant of the class leads back to itself. -/
theorem acyclic_loads : loads.pool.Acyclic := by
  refine ConstantPool.acyclic_of_texts fun i c hc j mem => ?_
  have listed := ConstantPool.mem_constants_of_get hc
  rw [pool_loads, ConstantPool.constants_built, loadsConstants] at listed
  simp only [List.mem_append, List.mem_map, List.mem_cons, List.not_mem_nil, or_false] at listed
  rcases listed with ⟨n, small, rfl⟩ | ⟨_, _, rfl⟩ | rfl | rfl | rfl | rfl | rfl
  · cases List.mem_singleton.mp mem
    exact ⟨_, get_loadedText (List.mem_range.mp small)⟩
  · cases mem
  · cases List.mem_singleton.mp mem
    exact ⟨_, get_named.2.1⟩
  all_goals cases mem

/-- The class can be read back from its bytes. -/
theorem parse_loads : parse loads.bytes = .ok loads := by
  have checked : loads.check = .ok () := by decide +kernel
  refine parse_of_toBytes ⟨loadsConstants, pool_loads⟩ (fun a mem => ?_) (congrArg (· >>= _) checked)
  rw [all_loads, List.mem_singleton] at mem
  subst mem
  refine ⟨⟨"Code", ?_, rfl⟩, trivial⟩
  rw [ConstantPool.utf8, ConstantPool.utf8Bytes, get_named.2.2.1]
  rfl

/-- The operands of the loads lead to the strings, each of them to another one. -/
theorem tree_loaded {n : Nat} (h : n < 128) :
    loads.pool.tree (UInt8.ofNat (n + 1)).toUInt16 = .ok (loadedString n) := by
  refine acyclic_loads.tree_eq_ok.mpr ⟨_, get_loaded h, ?_⟩
  rw [ConstantOf.mapRefs, acyclic_loads.tree_utf8 (get_loadedText h)]
  rfl

/-- Code that loads strings one after the other is cut into these loads. -/
theorem decode_loads (ns : List Nat) (pc : Nat) :
    Bytecode.decodeFrom pc (ns.flatMap loadCode ++ [0xb1]) =
      .ok (ns.flatMap (fun n => loadInstructions (UInt8.ofNat (n + 1)).toUInt16) ++
        [⟨0xb1, none, []⟩]) := by
  induction ns generalizing pc with
  | nil =>
    refine (@Bytecode.decodeFrom_fixed pc 0xb1 [] [] rfl).trans ?_
    rw [Bytecode.decodeFrom]
    rfl
  | cons n ns ih =>
    have load := @Bytecode.decodeFrom_fixed pc 0x12 [UInt8.ofNat (n + 1)]
      (0x57 :: (ns.flatMap loadCode ++ [0xb1])) rfl
    have drop := @Bytecode.decodeFrom_fixed (pc + 1 + [UInt8.ofNat (n + 1)].length) 0x57 []
      (ns.flatMap loadCode ++ [0xb1]) rfl
    rw [ih] at drop
    rw [List.nil_append] at drop
    rw [drop] at load
    rw [List.flatMap_cons, List.append_assoc]
    exact load

/-- The code of the class loads every string once. -/
theorem codeView_loads : loads.pool.codeView ((List.range 128).flatMap loadCode ++ [0xb1]) =
    .ok ((List.range 128).flatMap (fun n => loadInstructions (loadedString n)) ++
      [⟨0xb1, none, []⟩]) := by
  have walk : ∀ ns : List Nat, (∀ n ∈ ns, n < 128) →
      List.Forall₂ (fun i j => i.mapRef (fun _ index => loads.pool.tree index) = .ok j)
        (ns.flatMap (fun n => loadInstructions (UInt8.ofNat (n + 1)).toUInt16) ++ [⟨0xb1, none, []⟩])
        (ns.flatMap (fun n => loadInstructions (loadedString n)) ++ [⟨0xb1, none, []⟩]) := by
    intro ns small
    induction ns with
    | nil => exact .cons rfl .nil
    | cons n ns ih =>
      obtain ⟨first, rest⟩ := List.forall_mem_cons.mp small
      have load : InstructionOf.mapRef (fun _ index => loads.pool.tree index)
          ⟨0x12, some (.narrow, (UInt8.ofNat (n + 1)).toUInt16), []⟩ =
            .ok ⟨0x12, some (.narrow, loadedString n), []⟩ := by
        simp only [InstructionOf.mapRef, tree_loaded first]
        rfl
      exact .cons load (.cons rfl (ih rest))
  rw [ConstantPool.codeView, Bytecode.decode, decode_loads, ok_bind, mapM_eq_ok]
  exact walk _ fun n mem => List.mem_range.mp mem

/-- What the class says once it has been rid of debug attributes. -/
theorem view_loads : loads.debugFree.view = .ok loadsView := by
  obtain ⟨hclass, hname, hcode, hmethod, hdescriptor⟩ := get_named
  have kept : ∀ a ∈ loads.all, loads.pool.isDebugName a.name = false := by
    intro a mem
    rw [all_loads, List.mem_singleton] at mem
    subst mem
    rw [ConstantPool.isDebugName, ConstantPool.utf8Bytes, hcode]
    decide +kernel
  have class' : loads.pool.requiredView 257 = .ok (some ⟨.classInfo ⟨.utf8 [65]⟩⟩) := by
    refine ConstantPool.requiredView_of_tree (acyclic_loads.tree_eq_ok.mpr ⟨_, hclass, ?_⟩)
    rw [ConstantOf.mapRefs, acyclic_loads.tree_utf8 hname]
    rfl
  have text {i : PoolIndex} {bytes : Bytes} (h : loads.pool.get i = .ok (.utf8 bytes)) :
      loads.pool.requiredView i = .ok (some ⟨.utf8 bytes⟩) :=
    ConstantPool.requiredView_of_tree (acyclic_loads.tree_utf8 h)
  have code := codeView_loads
  have name := text hmethod
  have descriptor := text hdescriptor
  have label := text hcode
  rw [debugFree_eq_self kept]
  show ClassOf.mapRefs loads.pool.viewMap ⟨0, 52, ⟨0x21⟩, 257, 0, [], [], [⟨⟨9⟩, 260, 261,
    [⟨259, .code ⟨1, 0, (List.range 128).flatMap loadCode ++ [0xb1], [], []⟩⟩]⟩], []⟩ = .ok loadsView
  rw [loadsView]
  generalize loads.pool = pool at *
  generalize (List.range 128).flatMap loadCode ++ [0xb1] = bytes at *
  simp only [ClassOf.mapRefs, MemberOf.mapRefs, AttributeOf.mapRefsList, AttributeOf.mapRefs,
    AttributeBodyOf.mapRefs, CodeOf.mapRefs, ConstantPool.viewMap, List.mapM_cons, List.mapM_nil,
    class', name, descriptor, label, code, ok_bind]
  rfl

/-- All 128 strings are loaded with one byte. -/
theorem narrow_loads : loadsView.layout.narrow = (List.range 128).map loadedString := by decide +kernel

/-- The texts of the strings are all different. -/
theorem card_loadedTexts : ((Finset.range 128).image loadedText).card = 128 := by
  rw [Finset.card_image_of_injOn fun n hn m hm same => ?_, Finset.card_range]
  have small : n < 128 := by simpa using hn
  have small' : m < 128 := by simpa using hm
  obtain ⟨high, low⟩ : UInt8.ofNat (65 + n / 16) = UInt8.ofNat (65 + m / 16) ∧
      UInt8.ofNat (65 + n % 16) = UInt8.ofNat (65 + m % 16) := by simpa [loadedText] using same
  have high := congrArg UInt8.toNat high
  have low := congrArg UInt8.toNat low
  simp only [UInt8.toNat_ofNat'] at high low
  omega

/-- **Not every class has a normal form**: `loads` parses, its references lead somewhere and its
code can be cut into instructions, and still one byte does not hold the new index of one of its
strings. -/
theorem normalize_loads :
    (∃ c v, parse loads.bytes = .ok c ∧ c.pool.Acyclic ∧ c.debugFree.view = .ok v) ∧
      normalize loads.bytes = .error (.overflow .renumberedLoadOperand) := by
  refine ⟨⟨loads, loadsView, parse_loads, acyclic_loads, view_loads⟩, ?_⟩
  have strings : ∀ s ∈ (Finset.range 128).image loadedText,
      ⟨.string ⟨.utf8 s⟩⟩ ∈ loadsView.layout.narrow := by
    intro s mem
    obtain ⟨n, small, rfl⟩ := Finset.mem_image.mp mem
    rw [narrow_loads]
    exact List.mem_map.mpr ⟨n, by simpa using small, rfl⟩
  have refused := normalize_ne_ok_of_strings parse_loads acyclic_loads view_loads strings
    (Nat.le_of_eq card_loadedTexts.symm)
  have few : loads.pool.slotCount < UInt16.size := by
    rw [pool_loads, ConstantPool.slotCount_foldl_push]
    decide +kernel
  rcases normalize_outcome parse_loads acyclic_loads view_loads with ⟨_, w, run⟩ | ⟨many, _⟩ | ⟨_, run⟩
  · exact absurd run (refused w)
  · have shorter := slotCount_layout_le parse_loads acyclic_loads view_loads
    exact absurd (many.trans shorter) (Nat.not_le.mpr few)
  · exact run

end ClassFile

end ProcessorBench
