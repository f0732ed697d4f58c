import ProcessorBench.Proofs.PoolSteps
import ProcessorBench.Proofs.ReadingBack

/-!
# What is asked of a builder, from the first request to the last

A builder answers requests for indices. A request names a constant as it is, or by texts, and then
it asks for the constants over these as well, one after the other; where one of them does not fit,
those before it stay behind. `PoolBuilder.exchanges` lists what comes of some requests that are made
one after the other, and `exchanges_faithful` is what holds of every such list: indices and constants
are in bijection all the time, an index keeps its meaning for ever, and only a constant that is still
missing and does not fit is refused.
-/

namespace ProcessorBench

/-- A request for the index of a constant. -/
inductive PoolRequest where
  | constant (c : Constant)
  | utf8 (text : String)
  | classInfo (name : String)
  | string (text : String)
  | nameAndType (name descriptor : String)
  | fieldRef (owner name descriptor : String)
  | methodRef (owner name descriptor : String)

/-- What one request has come to. -/
structure PoolExchange where
  request : PoolRequest
  before : PoolBuilder
  outcome : Except ClassError PoolIndex
  after : PoolBuilder

namespace PoolRequest

/-- What a builder does about a request. -/
def step : PoolRequest → PoolStep PoolIndex
  | .constant c => PoolBuilder.intern c
  | .utf8 text => PoolBuilder.utf8 text
  | .classInfo name => PoolBuilder.classInfo name
  | .string text => PoolBuilder.string text
  | .nameAndType name descriptor => PoolBuilder.nameAndType name descriptor
  | .fieldRef owner name descriptor => PoolBuilder.fieldRef owner name descriptor
  | .methodRef owner name descriptor => PoolBuilder.methodRef owner name descriptor

/-- What is needed for a request, in the order in which it is added: the last is the request. -/
def parts : PoolRequest → List PoolRequest
  | .constant c => [.constant c]
  | .utf8 text => [.utf8 text]
  | .classInfo name => [.utf8 name, .classInfo name]
  | .string text => [.utf8 text, .string text]
  | .nameAndType name descriptor =>
    [.utf8 name, .utf8 descriptor, .nameAndType name descriptor]
  | .fieldRef owner name descriptor =>
    [.utf8 owner, .classInfo owner, .utf8 name, .utf8 descriptor, .nameAndType name descriptor,
      .fieldRef owner name descriptor]
  | .methodRef owner name descriptor =>
    [.utf8 owner, .classInfo owner, .utf8 name, .utf8 descriptor, .nameAndType name descriptor,
      .methodRef owner name descriptor]

/-- The constant that a request asks for: what it is over stands in the pool, and it refers to that
by the indices that it has there. -/
inductive Asks (pool : ConstantPool) : PoolRequest → Constant → Prop where
  | constant (c : Constant) : Asks pool (.constant c) c
  | utf8 (text : String) : Asks pool (.utf8 text) (.utf8 (ModifiedUtf8.encode text))
  | classInfo {name : String} {i : PoolIndex} {c : Constant} (asked : Asks pool (.utf8 name) c)
      (found : pool.get i = .ok c) : Asks pool (.classInfo name) (.classInfo i)
  | string {text : String} {i : PoolIndex} {c : Constant} (asked : Asks pool (.utf8 text) c)
      (found : pool.get i = .ok c) : Asks pool (.string text) (.string i)
  | nameAndType {name descriptor : String} {i j : PoolIndex} {c d : Constant}
      (asked : Asks pool (.utf8 name) c) (found : pool.get i = .ok c)
      (asked' : Asks pool (.utf8 descriptor) d) (found' : pool.get j = .ok d) :
      Asks pool (.nameAndType name descriptor) (.nameAndType i j)
  | fieldRef {owner name descriptor : String} {i j : PoolIndex} {c d : Constant}
      (asked : Asks pool (.classInfo owner) c) (found : pool.get i = .ok c)
      (asked' : Asks pool (.nameAndType name descriptor) d) (found' : pool.get j = .ok d) :
      Asks pool (.fieldRef owner name descriptor) (.fieldRef i j)
  | methodRef {owner name descriptor : String} {i j : PoolIndex} {c d : Constant}
      (asked : Asks pool (.classInfo owner) c) (found : pool.get i = .ok c)
      (asked' : Asks pool (.nameAndType name descriptor) d) (found' : pool.get j = .ok d) :
      Asks pool (.methodRef owner name descriptor) (.methodRef i j)

/-- What is read from a pool at the index of a request: the texts of the request, or a constant over
what reads as these. -/
def ReadsBack (pool : ConstantPool) (i : PoolIndex) : PoolRequest → Prop
  | .constant c => pool.get i = .ok c
  | .utf8 text => pool.utf8 i = .ok text
  | .classInfo name => pool.className i = .ok name
  | .string text => ∃ t, pool.get i = .ok (.string t) ∧ pool.utf8 t = .ok text
  | .nameAndType name descriptor => pool.nameAndType i = .ok (name, descriptor)
  | .fieldRef owner name descriptor => ∃ j k, pool.get i = .ok (.fieldRef j k) ∧
      pool.className j = .ok owner ∧ pool.nameAndType k = .ok (name, descriptor)
  | .methodRef owner name descriptor => ∃ j k, pool.get i = .ok (.methodRef j k) ∧
      pool.className j = .ok owner ∧ pool.nameAndType k = .ok (name, descriptor)

/-- The constant of a request stands in the pool at an index. -/
def At (r : PoolRequest) (pool : ConstantPool) (i : PoolIndex) : Prop :=
  ∃ c, r.Asks pool c ∧ pool.get i = .ok c

/-- The constant of a request is not in the pool, and there is no room for it. -/
def Missing (r : PoolRequest) (b : PoolBuilder) : Prop :=
  ∃ c, r.Asks b.pool c ∧ (∀ i, b.pool.get i ≠ .ok c) ∧ 65535 < b.slotCount + c.slots

end PoolRequest

namespace PoolBuilder

/-- A request, and what comes of it. -/
def answer (b : PoolBuilder) (r : PoolRequest) : PoolExchange :=
  match r.step b with
  | .ok i after => ⟨r, b, .ok i, after⟩
  | .error e after => ⟨r, b, .error e, after⟩

/-- What comes of some requests, each of which finds what those before it have left. -/
def exchanges : PoolBuilder → List PoolRequest → List PoolExchange
  | _, [] => []
  | b, r :: rs => b.answer r :: (b.answer r).after.exchanges rs

/-- What some requests leave. -/
def afterAll (b : PoolBuilder) (requests : List PoolRequest) : PoolBuilder :=
  requests.foldl (fun b r => (b.answer r).after) b

/-- The constants of a pool and their indices are in bijection, and the slots are those that the
format has. -/
structure Bijective (b : PoolBuilder) : Prop where
  index_iff : ∀ c i, b.index[c]? = some i ↔ b.pool.get i = .ok c
  injective : ∀ i j c, b.pool.get i = .ok c → b.pool.get j = .ok c → i = j
  wellFormed : b.pool.WellFormed
  slotCount_le : b.slotCount ≤ 65535

end PoolBuilder

/-- What holds of one request, `final` being the pool at the end. -/
structure PoolExchange.Settled (x : PoolExchange) (final : ConstantPool) : Prop where
  before : x.before.Bijective
  after : x.after.Bijective
  /-- Nothing is taken back, whether the request fails or not. -/
  kept : x.before.pool ≤ x.after.pool
  /-- The index that is handed out is that of the constant, now and at the end. -/
  granted : ∀ i, x.outcome = .ok i → ∃ c, x.request.Asks final c ∧ x.after.pool.get i = .ok c ∧
    final.get i = .ok c
  readsBack : ∀ i, x.outcome = .ok i → x.request.ReadsBack final i
  refused : ∀ e, x.outcome = .error e →
    e = .overflow .poolSlots ∧ ∃ part ∈ x.request.parts, part.Missing x.after
  /-- A request that needs nothing else and fails leaves everything as it was. -/
  unchanged : ∀ e, x.outcome = .error e → x.request.parts = [x.request] → x.after = x.before

/-! ## The constants of requests -/

namespace ConstantPool

variable {p : ConstantPool} {i j k : PoolIndex} {name descriptor : String}

/-- A name with a type is what both of its texts say. -/
theorem nameAndType_of_get (h : p.get i = .ok (.nameAndType j k)) (hname : p.utf8 j = .ok name)
    (hdescriptor : p.utf8 k = .ok descriptor) : p.nameAndType i = .ok (name, descriptor) := by
  rw [nameAndType, h, ok_bind]
  simp only [hname, hdescriptor, ok_bind]
  rfl

end ConstantPool

namespace PoolRequest

variable {p q : ConstantPool} {r : PoolRequest} {c d : Constant} {i : PoolIndex}

/-- What has been asked for stays so when constants are added. -/
theorem Asks.of_le (h : p ≤ q) (asked : r.Asks p c) : r.Asks q c := by
  induction asked with
  | constant c => exact .constant c
  | utf8 text => exact .utf8 text
  | classInfo _ found ih => exact .classInfo ih (h _ _ found)
  | string _ found ih => exact .string ih (h _ _ found)
  | nameAndType _ found _ found' ih ih' => exact .nameAndType ih (h _ _ found) ih' (h _ _ found')
  | fieldRef _ found _ found' ih ih' => exact .fieldRef ih (h _ _ found) ih' (h _ _ found')
  | methodRef _ found _ found' ih ih' => exact .methodRef ih (h _ _ found) ih' (h _ _ found')

/-- A request asks for one constant where no constant stands twice. -/
theorem Asks.unique (injective : ∀ i j c, p.get i = .ok c → p.get j = .ok c → i = j)
    (asked : r.Asks p c) (asked' : r.Asks p d) : c = d := by
  -- The same texts are asked for first, and each of them stands at one index only.
  induction asked generalizing d with
  | constant c => cases asked'; rfl
  | utf8 text => cases asked'; rfl
  | classInfo _ found ih =>
    cases asked' with
    | classInfo other found' =>
      exact congrArg ConstantOf.classInfo (injective _ _ _ found (ih other ▸ found'))
  | string _ found ih =>
    cases asked' with
    | string other found' =>
      exact congrArg ConstantOf.string (injective _ _ _ found (ih other ▸ found'))
  | nameAndType _ left _ right ih ih' =>
    cases asked' with
    | nameAndType other left' other' right' =>
      exact congrArg₂ ConstantOf.nameAndType (injective _ _ _ left (ih other ▸ left'))
        (injective _ _ _ right (ih' other' ▸ right'))
  | fieldRef _ left _ right ih ih' =>
    cases asked' with
    | fieldRef other left' other' right' =>
      exact congrArg₂ ConstantOf.fieldRef (injective _ _ _ left (ih other ▸ left'))
        (injective _ _ _ right (ih' other' ▸ right'))
  | methodRef _ left _ right ih ih' =>
    cases asked' with
    | methodRef other left' other' right' =>
      exact congrArg₂ ConstantOf.methodRef (injective _ _ _ left (ih other ▸ left'))
        (injective _ _ _ right (ih' other' ▸ right'))

/-- **What a request asks for reads as the request has it.** -/
theorem Asks.readsBack (asked : r.Asks p c) (found : p.get i = .ok c) : r.ReadsBack p i := by
  induction asked generalizing i with
  | constant c => exact found
  | utf8 text => exact ConstantPool.utf8_of_get found
  | classInfo _ text ih => exact ConstantPool.className_of_get found (ih text)
  | string _ text ih => exact ⟨_, found, ih text⟩
  | nameAndType _ name _ descriptor ih ih' =>
    exact ConstantPool.nameAndType_of_get found (ih name) (ih' descriptor)
  | fieldRef _ owner _ member ih ih' => exact ⟨_, _, found, ih owner, ih' member⟩
  | methodRef _ owner _ member ih ih' => exact ⟨_, _, found, ih owner, ih' member⟩

end PoolRequest

/-! ## Steps that fail -/

namespace PoolStep

variable {α β : Type}

/-- Two steps fail if the first one does, or the second one after it. -/
theorem bind_eq_error {x : PoolStep α} {k : α → PoolStep β} {b b' : PoolBuilder} {e : ClassError} :
    (x >>= k) b = .error e b' ↔
      x b = .error e b' ∨ ∃ a b₁, x b = .ok a b₁ ∧ k a b₁ = .error e b' := by
  show EStateM.bind x k b = .error e b' ↔ _
  unfold EStateM.bind
  cases x b with
  | ok a b₁ => simp
  | error e b₁ => simp

/-- Where the step fails it is for want of slots, nothing is taken back from the builder, and what is
left has the property `E`. -/
def FailsFull (x : PoolStep α) (E : PoolBuilder → Prop) : Prop :=
  ∀ b e b', b.Coherent → x b = .error e b' →
    b'.Coherent ∧ b.pool ≤ b'.pool ∧ e = .overflow .poolSlots ∧ E b'

namespace FailsFull

variable {x : PoolStep α} {E E' : PoolBuilder → Prop} {Q : α → ConstantPool → Prop}

theorem mono (h : x.FailsFull E) (imp : ∀ b, E b → E' b) : x.FailsFull E' := by
  intro b e b' hb run
  obtain ⟨hb', grown, full, left⟩ := h b e b' hb run
  exact ⟨hb', grown, full, imp b' left⟩

/-- Either step can fail, and the second does so over what the first has given. -/
theorem bind {k : α → PoolStep β} (added : x.Adds Q) (hx : x.FailsFull E)
    (hk : ∀ a, (k a).FailsFull fun b => Q a b.pool → E b) : (x >>= k).FailsFull E := by
  intro b e b' hb run
  rcases bind_eq_error.mp run with first | ⟨a, b₁, first, last⟩
  · exact hx b e b' hb first
  · obtain ⟨hb₁, grown, given⟩ := added b a b₁ hb first
    obtain ⟨hb', grown', full, left⟩ := hk a b₁ e b' hb₁ last
    exact ⟨hb', ConstantPool.le_trans grown grown', full, left (given _ grown')⟩

end FailsFull

end PoolStep

namespace PoolBuilder

open PoolStep (Adds FailsFull)

/-- A constant that is refused is not there and does not fit, and the builder stays as it is. -/
theorem eq_of_intern_error {c : Constant} {b b' : PoolBuilder} {e : ClassError}
    (run : intern c b = .error e b') : b' = b ∧ e = .overflow .poolSlots ∧ b.index[c]? = none ∧
      65535 < b.slotCount + c.slots := by
  rcases intern_cases c b with ⟨_, _, same⟩ | ⟨_, _, same⟩ | ⟨absent, full, same⟩
  · rw [same] at run
    cases run
  · rw [same] at run
    cases run
  · rw [same] at run
    cases run
    exact ⟨rfl, rfl, absent, by rw [UInt16.size] at full; omega⟩

/-- Adding a constant fails only if it is not there and there is no room. -/
theorem intern_failsFull (c : Constant) : (intern c).FailsFull fun b =>
    (∀ i, b.pool.get i ≠ .ok c) ∧ 65535 < b.slotCount + c.slots := by
  intro b e b' hb run
  obtain ⟨rfl, full, absent, large⟩ := eq_of_intern_error run
  refine ⟨hb, ConstantPool.le_refl _, full, fun i there => ?_, large⟩
  rw [(hb.index_iff c i).mpr there] at absent
  cases absent

end PoolBuilder

/-! ## What a builder does about a request -/

namespace PoolRequest

open PoolBuilder (intern intern_adds intern_failsFull)

/-- A step answers a request: it gives the index of the constant, or it fails and something that the
request needs is missing. -/
structure AnsweredBy (r : PoolRequest) (x : PoolStep PoolIndex) : Prop where
  adds : x.Adds fun i F => r.At F i
  fails : x.FailsFull fun b => ∃ part ∈ r.parts, part.Missing b

variable {r part part' : PoolRequest} {x y : PoolStep PoolIndex}

/-- A constant that asks for nothing else. -/
theorem answeredBy_intern {c : Constant} (asks : ∀ F, r.Asks F c) (mem : r ∈ r.parts) :
    r.AnsweredBy (intern c) where
  adds := (intern_adds c).mono fun _ F there => ⟨c, asks F, there⟩
  fails := (intern_failsFull c).mono fun b missing => ⟨r, mem, c, asks b.pool, missing⟩

/-- A constant over one part, which is asked for first. -/
theorem AnsweredBy.over (hx : part.AnsweredBy x) {make : PoolIndex → Constant}
    (asks : ∀ F i, part.At F i → r.Asks F (make i)) (parts : part.parts ++ [r] ⊆ r.parts) :
    r.AnsweredBy (x >>= fun i => intern (make i)) where
  adds := hx.adds.bind fun i => (intern_adds _).mono fun _ F there h => ⟨_, asks F i h, there⟩
  fails := by
    obtain ⟨before, self⟩ := List.append_subset.mp parts
    refine .bind hx.adds (hx.fails.mono fun b ⟨p, mem, missing⟩ => ⟨p, before mem, missing⟩) ?_
    intro i
    refine (intern_failsFull _).mono fun b missing h => ⟨r, self (List.mem_singleton_self r), ?_⟩
    exact ⟨_, asks b.pool i h, missing⟩

/-- A constant over two parts. -/
theorem AnsweredBy.over₂ (hx : part.AnsweredBy x) (hy : part'.AnsweredBy y)
    {make : PoolIndex → PoolIndex → Constant}
    (asks : ∀ F i j, part.At F i → part'.At F j → r.Asks F (make i j))
    (parts : part.parts ++ part'.parts ++ [r] ⊆ r.parts) :
    r.AnsweredBy (x >>= fun i => y >>= fun j => intern (make i j)) where
  adds := hx.adds.bind fun i => hy.adds.bind fun j =>
    (intern_adds _).mono fun _ F there h' h => ⟨_, asks F i j h h', there⟩
  fails := by
    obtain ⟨before, self⟩ := List.append_subset.mp parts
    obtain ⟨first, second⟩ := List.append_subset.mp before
    refine .bind hx.adds (hx.fails.mono fun b ⟨p, mem, missing⟩ => ⟨p, first mem, missing⟩) fun i => ?_
    refine .bind hy.adds ?_ fun j => ?_
    · exact hy.fails.mono fun b ⟨p, mem, missing⟩ _ => ⟨p, second mem, missing⟩
    · refine (intern_failsFull _).mono fun b missing h' h => ⟨r, self (List.mem_singleton_self r), ?_⟩
      exact ⟨_, asks b.pool i j h h', missing⟩

/-- A request for a text is answered by adding it. -/
theorem answeredBy_utf8 (text : String) : (utf8 text).AnsweredBy (PoolBuilder.utf8 text) :=
  answeredBy_intern (fun _ => .utf8 text) (by simp [parts])

/-- A request for a class is answered by adding it with its name. -/
theorem answeredBy_classInfo (name : String) :
    (classInfo name).AnsweredBy (PoolBuilder.classInfo name) :=
  (answeredBy_utf8 name).over (fun _ _ ⟨_, asked, found⟩ => .classInfo asked found) (by simp [parts])

/-- A request for a name with a type is answered by adding it with both texts. -/
theorem answeredBy_nameAndType (name descriptor : String) :
    (nameAndType name descriptor).AnsweredBy (PoolBuilder.nameAndType name descriptor) :=
  (answeredBy_utf8 name).over₂ (answeredBy_utf8 descriptor)
    (fun _ _ _ ⟨_, asked, found⟩ ⟨_, asked', found'⟩ => .nameAndType asked found asked' found')
    (by simp [parts])

/-- **Every request is answered.** -/
theorem answeredBy_step : (r : PoolRequest) → r.AnsweredBy r.step
  | .constant c => answeredBy_intern (fun _ => .constant c) (by simp [parts])
  | .utf8 text => answeredBy_utf8 text
  | .classInfo name => answeredBy_classInfo name
  | .string text => (answeredBy_utf8 text).over
      (fun _ _ ⟨_, asked, found⟩ => .string asked found) (by simp [parts])
  | .nameAndType name descriptor => answeredBy_nameAndType name descriptor
  | .fieldRef owner name descriptor =>
    (answeredBy_classInfo owner).over₂ (answeredBy_nameAndType name descriptor)
      (fun _ _ _ ⟨_, asked, found⟩ ⟨_, asked', found'⟩ => .fieldRef asked found asked' found')
      (by simp [parts])
  | .methodRef owner name descriptor =>
    (answeredBy_classInfo owner).over₂ (answeredBy_nameAndType name descriptor)
      (fun _ _ _ ⟨_, asked, found⟩ ⟨_, asked', found'⟩ => .methodRef asked found asked' found')
      (by simp [parts])

/-- A request that needs nothing else is one step, and leaves the builder as it is if it fails. -/
theorem eq_of_step_error {b b' : PoolBuilder} {e : ClassError} (single : r.parts = [r])
    (run : r.step b = .error e b') : b' = b := by
  cases r with
  | constant c => exact (PoolBuilder.eq_of_intern_error run).1
  | utf8 text => exact (PoolBuilder.eq_of_intern_error run).1
  | _ => cases single

end PoolRequest

/-! ## One request -/

namespace PoolBuilder

variable {b : PoolBuilder} {x : PoolExchange}

/-- A coherent builder has one index for each constant, and one constant for each index. -/
theorem Coherent.bijective (hb : b.Coherent) : b.Bijective where
  index_iff := hb.index_iff
  injective i j c hi hj := by
    have found := (hb.index_iff c i).mpr hi
    rw [(hb.index_iff c j).mpr hj] at found
    exact (Option.some.inj found).symm
  wellFormed := ConstantPool.wellFormed_iff.mpr hb.pushed
  slotCount_le := by
    have small := hb.slotCount_lt
    rw [UInt16.size] at small
    omega

/-- The answer to a request that succeeds. -/
theorem answer_of_ok {r : PoolRequest} {i : PoolIndex} {after : PoolBuilder}
    (run : r.step b = .ok i after) : b.answer r = ⟨r, b, .ok i, after⟩ := by
  rw [answer, run]

/-- The answer to a request that fails. -/
theorem answer_of_error {r : PoolRequest} {e : ClassError} {after : PoolBuilder}
    (run : r.step b = .error e after) : b.answer r = ⟨r, b, .error e, after⟩ := by
  rw [answer, run]

theorem before_answer (b : PoolBuilder) (r : PoolRequest) : (b.answer r).before = b := by
  unfold answer
  split <;> rfl

/-- A request keeps a builder as it should be, and takes nothing back. -/
theorem answer_coherent (hb : b.Coherent) (r : PoolRequest) :
    (b.answer r).after.Coherent ∧ b.pool ≤ (b.answer r).after.pool := by
  cases run : r.step b with
  | ok i after =>
    obtain ⟨coherent, grown, _⟩ := r.answeredBy_step.adds b i after hb run
    rw [answer_of_ok run]
    exact ⟨coherent, grown⟩
  | error e after =>
    obtain ⟨coherent, grown, _⟩ := r.answeredBy_step.fails b e after hb run
    rw [answer_of_error run]
    exact ⟨coherent, grown⟩

/-- **What holds of one request**, `final` being what the builder grows into. -/
theorem answer_settled (hb : b.Coherent) (r : PoolRequest) {final : ConstantPool}
    (below : (b.answer r).after.pool ≤ final) : (b.answer r).Settled final := by
  cases run : r.step b with
  | ok i after =>
    obtain ⟨coherent, grown, given⟩ := r.answeredBy_step.adds b i after hb run
    -- What is asked for now is asked for in the final pool, too, since constants stay where they are.
    obtain ⟨c, asked, there⟩ := given after.pool (ConstantPool.le_refl _)
    rw [answer_of_ok run] at below ⊢
    have later : r.Asks final c := asked.of_le below
    exact
      { before := hb.bijective
        after := coherent.bijective
        kept := grown
        granted := by rintro _ ⟨⟩; exact ⟨c, later, there, below i c there⟩
        readsBack := by rintro _ ⟨⟩; exact later.readsBack (below i c there)
        refused := nofun
        unchanged := nofun }
  | error e after =>
    obtain ⟨coherent, grown, full, missing⟩ := r.answeredBy_step.fails b e after hb run
    rw [answer_of_error run]
    exact
      { before := hb.bijective
        after := coherent.bijective
        kept := grown
        granted := nofun
        readsBack := nofun
        refused := by rintro _ ⟨⟩; exact ⟨full, missing⟩
        unchanged := by rintro _ ⟨⟩ single; exact PoolRequest.eq_of_step_error single run }

/-! ## All requests -/

/-- Requests keep a builder as it should be, and take nothing back. -/
theorem afterAll_coherent (hb : b.Coherent) (requests : List PoolRequest) :
    (b.afterAll requests).Coherent ∧ b.pool ≤ (b.afterAll requests).pool := by
  induction requests generalizing b with
  | nil => exact ⟨hb, ConstantPool.le_refl _⟩
  | cons r rs ih =>
    obtain ⟨coherent, grown⟩ := answer_coherent hb r
    obtain ⟨coherent', grown'⟩ := ih coherent
    exact ⟨coherent', ConstantPool.le_trans grown grown'⟩

/-- Each of some requests is settled. -/
theorem exchanges_settled (hb : b.Coherent) (requests : List PoolRequest) :
    ∀ x ∈ b.exchanges requests, x.Settled (b.afterAll requests).pool := by
  induction requests generalizing b with
  | nil => exact fun _ => nofun
  | cons r rs ih =>
    obtain ⟨coherent, _⟩ := answer_coherent hb r
    intro x mem
    rcases List.mem_cons.mp mem with rfl | mem
    · exact answer_settled hb r (afterAll_coherent coherent rs).2
    · exact ih coherent x mem

/-- A later request finds what an earlier one has left. -/
theorem exchanges_pairwise (hb : b.Coherent) (requests : List PoolRequest) :
    (∀ x ∈ b.exchanges requests, b.pool ≤ x.before.pool) ∧
      (b.exchanges requests).Pairwise fun x y => x.after.pool ≤ y.before.pool := by
  induction requests generalizing b with
  | nil => exact ⟨fun _ => nofun, .nil⟩
  | cons r rs ih =>
    obtain ⟨coherent, grown⟩ := answer_coherent hb r
    obtain ⟨later, pairwise⟩ := ih coherent
    refine ⟨fun x mem => ?_, .cons later pairwise⟩
    rcases List.mem_cons.mp mem with rfl | mem
    · rw [before_answer]
      exact ConstantPool.le_refl _
    · exact ConstantPool.le_trans grown (later x mem)

/-- **Whatever is asked of a builder, constants and indices stay in bijection.** Of some requests that
are made one after the other, failing or not, the following holds. The table of indices and the pool
are inverse to each other all the time, slot 0 and the slot behind a wide constant are empty, and
there are at most 65535 slots. A request that is granted is granted the index of its constant, which
it keeps through all later requests, so two are granted one index where they ask for one constant; and
its index reads as the texts of the request. A request is refused for want of slots only, and only
where one of the constants it needs is not there and does not fit; if it needs one constant alone,
that leaves the builder as it was. -/
theorem exchanges_faithful (requests : List PoolRequest) :
    (empty.afterAll requests).Bijective ∧
      (∀ x ∈ empty.exchanges requests, x.Settled (empty.afterAll requests).pool) ∧
      ((empty.exchanges requests).Pairwise fun x y => x.after.pool ≤ y.before.pool) ∧
      ∀ x ∈ empty.exchanges requests, ∀ y ∈ empty.exchanges requests, ∀ i j c d,
        x.outcome = .ok i → y.outcome = .ok j →
        x.request.Asks (empty.afterAll requests).pool c →
        y.request.Asks (empty.afterAll requests).pool d → (i = j ↔ c = d) := by
  have settled := exchanges_settled coherent_empty requests
  have final := (afterAll_coherent coherent_empty requests).1.bijective
  refine ⟨final, settled, (exchanges_pairwise coherent_empty requests).2, ?_⟩
  intro x hx y hy i j c d granted granted' asked asked'
  obtain ⟨c', asksFor, _, there⟩ := (settled x hx).granted i granted
  obtain ⟨d', asksFor', _, there'⟩ := (settled y hy).granted j granted'
  cases asked.unique final.injective asksFor
  cases asked'.unique final.injective asksFor'
  constructor
  · rintro rfl
    rw [there] at there'
    exact Except.ok.inj there'
  · rintro rfl
    exact final.injective i j c there there'

end PoolBuilder

end ProcessorBench
