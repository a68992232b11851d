import ByteBricks.Proofs.Execution.Layouts
import ByteBricks.Proofs.Execution.Views
import ByteBricks.Proofs.Template.Typing

/-! # Agreement of Scopes and Stores

  The names of a template are looked up twice: in the context that it is typed in and
  in the store of its execution. Both agree if every declaration of the context stands
  for a field or a layout of the store. Where they agree, a typed expression has a
  value of its type, or a fault of arithmetic, unless the file cannot be read. -/

namespace ByteBricks.Execution

open Template (Access Context Declaration ElementType Entry Expr)

/-! ### Faults -/

/-- A fault that the values of fields lead to. -/
def Fault.OfValues : Fault → Prop
  | indexOutOfRange _ _ _ | divisionByZero | overflow | valueOutOfRange _ => True
  | _ => False

/-- A fault of an operation on integers. -/
def Fault.OfArithmetic : Fault → Prop
  | divisionByZero | overflow => True
  | _ => False

/-- A fault of the count or the size of a declaration. -/
def Fault.OfSize : Fault → Prop
  | negativeCount _ | sizeOverflow _ => True
  | _ => False

/-- A fault that the data, the counts or the sizes of fields lead to. -/
def Fault.OfData : Fault → Prop
  | negativeCount _ | countTooLarge _ | sizeOverflow _ | outOfBounds _ _ _ _ => True
  | fault => fault.OfValues

/-- A fault of the kind, or one of a file that does not keep its bytes. -/
def Fault.In (view : View) (kind : Fault → Prop) (fault : Fault) : Prop :=
  kind fault ∨ (∃ e, fault = .unreadable (.io e)) ∧ ¬ view.Steady

/-- The execution stops with a fault of a kind, not in a broken state. -/
def Halt.Of (kind : Fault → Prop) : Halt → Prop
  | .failed error => kind error.fault
  | .broken _ => False

/-- What is computed satisfies `post`, or what stops the computation is of a kind. -/
def Meets {α : Type} (kind : Fault → Prop) (post : α → Prop) : Except Halt α → Prop
  | .ok a => post a
  | .error halt => halt.Of kind

theorem Fault.OfValues.ofData {fault : Fault} (h : fault.OfValues) : fault.OfData := by
  cases fault <;> first | exact h | exact h.elim

theorem Fault.OfArithmetic.ofValues {fault : Fault} (h : fault.OfArithmetic) :
    fault.OfValues := by
  cases fault <;> first | exact h | exact h.elim

theorem Fault.OfSize.ofData {fault : Fault} (h : fault.OfSize) : fault.OfData := by
  cases fault <;> first | exact h | exact h.elim

theorem Fault.In.of_steady {view : View} {kind : Fault → Prop} {fault : Fault}
    (h : fault.In view kind) (hview : view.Steady) : kind fault :=
  h.resolve_right fun hread => hread.2 hview

theorem Fault.In.mono {view : View} {kind kind' : Fault → Prop} {fault : Fault}
    (h : fault.In view kind) (hkind : ∀ fault, kind fault → kind' fault) : fault.In view kind' :=
  h.imp_left (hkind fault)

section Meets

variable {α β : Type} {kind kind' : Fault → Prop} {P : α → Prop} {Q : β → Prop}

theorem Meets.bind {x : Except Halt α} {f : α → Except Halt β} (hx : Meets kind P x)
    (hf : ∀ a, x = .ok a → P a → Meets kind Q (f a)) : Meets kind Q (x >>= f) := by
  cases x with
  | ok a => exact hf a rfl hx
  | error halt => exact hx

theorem Meets.mono {x : Except Halt α} (hx : Meets kind P x)
    (hkind : ∀ fault, kind fault → kind' fault) : Meets kind' P x := by
  cases x with
  | ok a => exact hx
  | error halt =>
    cases halt with
    | failed error => exact hkind _ hx
    | broken breach => exact hx

theorem meets_require {line : Nat} {fault : Fault} {o : Option α} (hfault : kind fault)
    (ho : ∀ a, o = some a → P a) : Meets kind P (require line fault o) := by
  cases o with
  | some a => exact ho a rfl
  | none => exact hfault

end Meets

/-! ### Values -/

/-- The value is of the kind that a type says: an integer or a float. -/
def Value.HasType : Value → Primitive → Prop
  | int _, t => t.isInteger = true
  | float _, t => t.isFloat = true

/-- The value of a field is of the field's type, unless it is too large. -/
theorem ofNumber_meets (t : Primitive) (order : ByteOrder) (bytes : List UInt8) :
    (∃ value, Value.ofNumber (t.number order bytes) = .ok value ∧ value.HasType t) ∨
      ∃ v, Value.ofNumber (t.number order bytes) = .error (.valueOutOfRange v) := by
  unfold Primitive.number
  by_cases hfloat : t.isFloat = true
  · rw [if_pos hfloat]
    refine .inl ?_
    split <;> exact ⟨_, rfl, hfloat⟩
  · have hint : t.isInteger = true := by simpa [Primitive.isInteger] using hfloat
    rw [if_neg hfloat]
    split
    · exact .inl ⟨_, rfl, hint⟩
    · -- An unsigned number has to fit into a signed one.
      unfold Value.ofNumber
      dsimp only
      split
      · exact .inl ⟨_, rfl, hint⟩
      · exact .inr ⟨_, rfl⟩

theorem applyInt_error {op : Template.ArithOp} {a b : Int64} {fault : Fault}
    (h : Value.applyInt op a b = .error fault) : fault.OfArithmetic := by
  unfold Value.applyInt at h
  cases hexact : Value.exactInt op a.toInt b.toInt with
  | ok r =>
    simp only [hexact, bind, Except.bind] at h
    split at h
    · simp at h
    · cases h
      trivial
  | error f =>
    -- Only a division has no exact result.
    simp only [hexact, bind, Except.bind, Except.error.injEq] at h
    subst h
    unfold Value.exactInt at hexact
    split at hexact
    case h_4 =>
      split at hexact
      · cases hexact
        trivial
      · simp at hexact
    all_goals simp at hexact

/-- An operation gives an integer for integers and a float otherwise. -/
theorem apply_meets (op : Template.ArithOp) {a b : Value} {t u : Primitive} (ha : a.HasType t)
    (hb : b.HasType u) :
    (∃ value, Value.apply op a b = .ok value ∧
      value.HasType (Template.Resolve.resultType t u)) ∨
      ∃ fault, Value.apply op a b = .error fault ∧ fault.OfArithmetic := by
  unfold Template.Resolve.resultType
  cases a with
  | float x =>
    have ht : t.isFloat = true := ha
    refine .inl ⟨_, rfl, ?_⟩
    rw [ht]
    rfl
  | int x =>
    have ht : t.isFloat = false := by simpa [Value.HasType, Primitive.isInteger] using ha
    cases b with
    | float y =>
      have hu : u.isFloat = true := hb
      refine .inl ⟨_, rfl, ?_⟩
      rw [hu, Bool.or_true]
      rfl
    | int y =>
      have hu : u.isFloat = false := by simpa [Value.HasType, Primitive.isInteger] using hb
      rw [ht, hu]
      show (∃ value, (Value.applyInt op x y).map Value.int = .ok value ∧ value.HasType .int64) ∨
        ∃ fault, (Value.applyInt op x y).map Value.int = .error fault ∧ fault.OfArithmetic
      cases happly : Value.applyInt op x y with
      | ok r => exact .inl ⟨.int r, rfl, rfl⟩
      | error fault => exact .inr ⟨fault, rfl, applyInt_error happly⟩

/-- The bytes of a number at an offset are part of the data. -/
structure Data.Holds (data : Data) (t : Primitive) (offset : Int64) : Prop where
  /-- They do not start in front of the data. -/
  start : 0 ≤ offset.toInt
  /-- They end within the data. -/
  stop : offset.toInt + t.size ≤ data.view.length
  /-- Their end is an offset. -/
  fits : offset.toInt + t.size ≤ Word.int64Max

theorem Data.Holds.end_le {data : Data} {t : Primitive} {offset : Int64} (h : data.Holds t offset) :
    offset.toInt.toNat + t.size ≤ data.view.length := by
  have hstart := h.start
  have hstop := h.stop
  omega

/-- A read within the data gives the value of the bytes there, unless the file cannot be read. -/
theorem read_of_holds {data : Data} (line : Nat) (name : String) {t : Primitive} {offset : Int64}
    (h : data.Holds t offset) :
    (∃ bytes, data.view.read offset.toInt.toNat t.size = .ok bytes ∧ bytes.length = t.size ∧
      data.read line name t offset =
        match Value.ofNumber (t.number data.order (bytes.take t.size)) with
        | .ok value => .ok value
        | .error fault => fail line fault) ∨
    ∃ e, data.view.read offset.toInt.toNat t.size = .error (.io e) ∧
      data.read line name t offset = fail line (.unreadable (.io e)) := by
  obtain ⟨hstart, hstop, hmax⟩ := h
  -- The end of the number fits, so it is not clamped.
  have hclamp : (Word.clampInt64 (offset.toInt + t.size)).toInt = offset.toInt + t.size := by
    rw [Word.toInt_clampInt64]
    unfold Word.int64Max Word.int64Min at *
    omega
  obtain ⟨start, hnat⟩ := Int.eq_ofNat_of_zero_le hstart
  have htoNat : offset.toInt.toNat = start := by omega
  have hbounds : checkBounds data.view line name offset (Word.clampInt64 (offset.toInt + t.size)) =
      .ok () := checkBounds_eq_ok_iff.2 ⟨hstart, by omega, by omega⟩
  have hassured : assured .negativeOffset offset.toInt.toNat? = .ok start := by
    rw [hnat]
    rfl
  rw [htoNat]
  unfold Data.read
  have hwithin : start + t.size ≤ data.view.length := by omega
  rcases View.read_cases hwithin with
    ⟨bytes, hread, hlength⟩ | ⟨e, hread⟩
  · have hdecode : t.decode data.order bytes = some (t.number data.order (bytes.take t.size)) :=
      if_pos (Nat.le_of_eq hlength.symm)
    refine .inl ⟨bytes, hread, hlength, ?_⟩
    cases hvalue : Value.ofNumber (t.number data.order (bytes.take t.size)) <;>
      simp only [hbounds, hassured, hread, hdecode, hvalue, bind, Except.bind, pure, Except.pure,
        require]
  · refine .inr ⟨e, hread, ?_⟩
    simp only [hbounds, hassured, hread, bind, Except.bind, fail]

/-- The bytes of a steady view can be read. -/
theorem read_of_steady {data : Data} (hview : data.view.Steady) (line : Nat) (name : String)
    {t : Primitive} {offset : Int64} (h : data.Holds t offset) :
    ∃ bytes, data.view.read offset.toInt.toNat t.size = .ok bytes ∧ bytes.length = t.size ∧
      data.read line name t offset =
        match Value.ofNumber (t.number data.order (bytes.take t.size)) with
        | .ok value => .ok value
        | .error fault => fail line fault := by
  obtain ⟨bytes, hread, -⟩ := hview.read_eq_ok h.end_le
  refine (read_of_holds line name h).resolve_right fun hfail => ?_
  obtain ⟨e, he, -⟩ := hfail
  rw [hread] at he
  cases he

/-- Two reads of the same bytes give the same value. -/
theorem read_eq_of_bytes {data data' : Data} (line : Nat) (name : String) {t : Primitive}
    {offset offset' : Int64} (h : data.Holds t offset) (h' : data'.Holds t offset')
    (horder : data'.order = data.order)
    (hbytes : data'.view.read offset'.toInt.toNat t.size =
      data.view.read offset.toInt.toNat t.size) :
    data'.read line name t offset' = data.read line name t offset := by
  rcases read_of_holds line name h with ⟨bytes, hread, -, hvalue⟩ | ⟨e, hread, hvalue⟩ <;>
    rcases read_of_holds line name h' with ⟨bytes', hread', -, hvalue'⟩ | ⟨e', hread', hvalue'⟩ <;>
    rw [hread, hread'] at hbytes <;> cases hbytes
  · rw [hvalue, hvalue', horder]
  · rw [hvalue, hvalue']

/-- A read within the data gives a number of the field's type, unless the file cannot be read. -/
theorem read_meets {data : Data} {line : Nat} {name : String} {t : Primitive} {offset : Int64}
    (h : data.Holds t offset) :
    Meets (Fault.In data.view Fault.OfValues) (·.HasType t) (data.read line name t offset) := by
  rcases read_of_holds line name h with ⟨bytes, -, -, hvalue⟩ | ⟨e, hread, hvalue⟩
  · rw [hvalue]
    rcases ofNumber_meets t data.order (bytes.take t.size) with
      ⟨value, hvalue, htype⟩ | ⟨v, hlarge⟩
    · rw [hvalue]
      exact htype
    · rw [hlarge]
      exact .inl trivial
  · rw [hvalue]
    refine .inr ⟨⟨e, rfl⟩, fun hview => ?_⟩
    obtain ⟨bytes, hbytes, -⟩ := hview.read_eq_ok h.end_le
    rw [hread] at hbytes
    cases hbytes

/-! ### Agreement -/

/-- The type of a declaration is that of the elements of a field. -/
def Denotes (layouts : List Layout) : ElementType → Element → Prop
  | .primitive t, .primitive t' => t' = t
  | .struct name, .struct i => ∃ l, layouts[i]? = some l ∧ l.name = name
  | _, _ => False

/-- What the store finds under a name has the type of that name. -/
theorem denotes_of_element {store : Store} {line : Nat} {name : String} {e : Element}
    (h : store.element line name = .ok e) : Denotes store.layouts (.ofName name) e := by
  unfold Store.element at h
  unfold ElementType.ofName
  cases hprimitive : Primitive.ofName? name with
  | some t =>
    simp only [hprimitive, Except.ok.injEq] at h
    subst h
    rfl
  | none =>
    simp only [hprimitive, bind_eq_ok, require_eq_ok, pure_eq_ok] at h
    obtain ⟨i, hi, rfl⟩ := h
    obtain ⟨l, hl, hname⟩ := getElem?_of_lastIdx? hi
    exact ⟨l, hl, by simpa using hname⟩

/-- A field is what its entry says. -/
structure Stands (layouts : List Layout) (b : Entry) (f : Field) : Prop where
  /-- The elements have the declared type. -/
  element : Denotes layouts b.type f.element
  /-- The field is an array if it was declared as one. -/
  isArray : f.isArray = b.isArray
  /-- Any other field holds a single element. -/
  single : b.isArray = false → f.count = 1

/-- The elements of a field lie within the data, unless they have no bytes. -/
def Field.Covered (f : Field) (layouts : List Layout) (view : View) : Prop :=
  ∃ n, f.element.size? layouts = some n ∧
    (n * f.count = 0 ∨ (0 ≤ f.start.toInt ∧
      f.start.toInt + (n * f.count : Nat) ≤ view.length ∧
      f.start.toInt + (n * f.count : Nat) ≤ Word.int64Max))

/-- A context and a store know the same structs and fields. -/
structure Agrees (Γ : Context) (s : Store) (view : View) : Prop where
  /-- Every declared struct has a layout. -/
  structs : ∀ name e, Γ.struct? name = some e → ∃ i, lastIdx? (·.name == name) s.layouts = some i
  /-- Every layout has the members of its struct. -/
  layouts : ∀ l ∈ s.layouts, ∃ e, Γ.struct? l.name = some e ∧
    ∀ name b, e.members.find? (·.name == name) = some b →
      ∃ f, l.members.find? (·.name == name) = some f ∧ Stands s.layouts b f
  /-- No two layouts have the same name. -/
  distinct : (s.layouts.map (·.name)).Nodup
  /-- Members lie within their structs. -/
  within : ∀ l ∈ s.layouts, ∀ f ∈ l.members, f.Within s.layouts l.size
  /-- Every declared field has been placed. -/
  fields : ∀ name b, Γ.field? name = some b →
    ∃ f, s.field? name = some f ∧ Stands s.layouts b f ∧ f.Covered s.layouts view

theorem Denotes.append {layouts : List Layout} {t : ElementType} {e : Element}
    (h : Denotes layouts t e) (more : List Layout) : Denotes (layouts ++ more) t e := by
  cases t with
  | primitive t =>
    cases e with
    | primitive t' => exact h
    | struct i => exact h
  | struct name =>
    cases e with
    | primitive t' => exact h
    | struct i =>
      obtain ⟨l, hl, hname⟩ := h
      exact ⟨l, getElem?_of_prefix (List.prefix_append _ _) hl, hname⟩

/-- A struct that a type stands for has a layout. -/
theorem Denotes.layout_isSome {layouts : List Layout} {t : ElementType} {i : Nat}
    (h : Denotes layouts t (.struct i)) : ∃ l, layouts[i]? = some l := by
  cases t with
  | primitive t => exact h.elim
  | struct name =>
    obtain ⟨l, hl, -⟩ := h
    exact ⟨l, hl⟩

theorem Denotes.size?_isSome {layouts : List Layout} {t : ElementType} {e : Element}
    (h : Denotes layouts t e) : ∃ n, e.size? layouts = some n := by
  cases e with
  | primitive t' => exact ⟨_, rfl⟩
  | struct i =>
    obtain ⟨l, hl⟩ := h.layout_isSome
    refine ⟨l.size, ?_⟩
    rw [Element.size?, hl]
    rfl

theorem Denotes.eq_primitive {layouts : List Layout} {t : Primitive} {e : Element}
    (h : Denotes layouts (.primitive t) e) : e = .primitive t := by
  cases e with
  | primitive t' => exact congrArg Element.primitive h
  | struct i => exact h.elim

theorem Denotes.eq_struct {layouts : List Layout} {name : String} {e : Element}
    (h : Denotes layouts (.struct name) e) :
    ∃ i l, e = .struct i ∧ layouts[i]? = some l ∧ l.name = name := by
  cases e with
  | primitive t' => exact h.elim
  | struct i =>
    obtain ⟨l, hl, hname⟩ := h
    exact ⟨i, l, rfl, hl, hname⟩

theorem Stands.append {layouts : List Layout} {b : Entry} {f : Field} (h : Stands layouts b f)
    (more : List Layout) : Stands (layouts ++ more) b f :=
  ⟨h.element.append more, h.isArray, h.single⟩

theorem Field.Covered.append {f : Field} {layouts : List Layout} {view : View}
    (h : f.Covered layouts view) (more : List Layout) : f.Covered (layouts ++ more) view := by
  obtain ⟨n, hn, hbounds⟩ := h
  exact ⟨n, Element.size?_append hn more, hbounds⟩

/-- The member of a single struct has an offset, and lies within the data if the struct
    does. -/
theorem covered_member {parent f : Field} {layouts : List Layout} {view : View} {l : Layout}
    {i : Nat} (hparent : parent.Covered layouts view) (helement : parent.element = .struct i)
    (hl : layouts[i]? = some l) (hsingle : parent.count = 1) (hf : f.Within layouts l.size)
    (name : String) :
    ∃ start, Word.int64? (parent.start.toInt + f.start.toInt) = some start ∧
      { f with name := name, start := start }.Covered layouts view := by
  obtain ⟨n, hn, hcovered⟩ := hparent
  obtain ⟨n', hn', hstart, hstop⟩ := hf
  rw [helement, Element.size?, hl] at hn
  have hsize : n = l.size := (Option.some.inj hn).symm
  rw [hsingle, Nat.mul_one, hsize] at hcovered
  have hlo : Word.int64Min ≤ parent.start.toInt := parent.start.le_toInt
  have hhi : parent.start.toInt < 2 ^ 63 := parent.start.toInt_lt
  -- Without any bytes the member starts where its struct does.
  have hrange : Word.int64Min ≤ parent.start.toInt + f.start.toInt ∧
      parent.start.toInt + f.start.toInt ≤ Word.int64Max := by
    unfold Word.int64Min Word.int64Max at *
    omega
  have hoffset : Word.int64? (parent.start.toInt + f.start.toInt) =
      some (Int64.ofInt (parent.start.toInt + f.start.toInt)) := if_pos hrange
  refine ⟨_, hoffset, n', hn', ?_⟩
  show n' * f.count = 0 ∨ _
  rw [Word.toInt_of_int64? hoffset]
  rcases hcovered with hzero | hbounds
  · left
    omega
  · right
    dsimp only
    omega

namespace Agrees

variable {Γ : Context} {s : Store} {data : Data}

/-- A known type is found in the store. -/
theorem element (h : Agrees Γ s data.view) (line : Nat) {name : String}
    (hname : Γ.Knows (.ofName name)) :
    ∃ e, s.element line name = .ok e ∧ Denotes s.layouts (.ofName name) e := by
  unfold ElementType.ofName at *
  unfold Store.element
  cases hprimitive : Primitive.ofName? name with
  | some t => exact ⟨_, rfl, rfl⟩
  | none =>
    simp only [hprimitive] at hname
    obtain ⟨entry, hentry⟩ := hname
    obtain ⟨i, hi⟩ := h.structs name entry hentry
    obtain ⟨l, hl, hlname⟩ := getElem?_of_lastIdx? hi
    refine ⟨.struct i, ?_, l, hl, by simpa using hlname⟩
    rw [hi]
    rfl

/-- A reference to a number stands for a field of that type, which lies within the
    data. -/
theorem locate (h : Agrees Γ s data.view) (line : Nat) {a : Access} {b : Entry} {t : Primitive}
    (ha : Γ.target? a = some b) (ht : b.type = .primitive t) :
    ∃ f, s.locate line a = .ok f ∧ f.element = .primitive t ∧ f.isArray = b.isArray ∧
      (b.isArray = false → f.count = 1) ∧ f.Covered s.layouts data.view := by
  cases a with
  | field name =>
    obtain ⟨f, hf, hstands, hcovered⟩ := h.fields name.text b ha
    have helement := hstands.element
    rw [ht] at helement
    exact ⟨f, locate_field_eq_ok_iff.2 hf, helement.eq_primitive, hstands.isArray,
      hstands.single, hcovered⟩
  | member owner part =>
    obtain ⟨p, struct, e, hp, harray, htype, he, hb⟩ := Context.target?_member.1 ha
    obtain ⟨parent, hparent, hstands, hcovered⟩ := h.fields owner.text p hp
    have helement := hstands.element
    rw [htype] at helement
    obtain ⟨i, l, hi, hl, hname⟩ := helement.eq_struct
    -- The layout of the owner is that of the struct in the context.
    obtain ⟨e', he', hmembers⟩ := h.layouts l (List.mem_of_getElem? hl)
    rw [hname, he] at he'
    cases he'
    obtain ⟨m, hm, hmember⟩ := hmembers part.text b hb
    have hwithin := h.within l (List.mem_of_getElem? hl) m (List.mem_of_find?_eq_some hm)
    obtain ⟨start, hstart, hcov⟩ := covered_member hcovered hi hl (hstands.single harray) hwithin
      (owner.text ++ "." ++ part.text)
    have hprimitive := hmember.element
    rw [ht] at hprimitive
    have hlocated : s.locate line (.member owner part) = .ok _ := locate_member_eq_ok_iff.2
      ⟨parent, i, l, m, start, hparent, hi, hl, hm, hstart, rfl⟩
    exact ⟨_, hlocated, hprimitive.eq_primitive, hmember.isArray, hmember.single, hcov⟩

/-- The number of a single field can be read. -/
theorem read_single {f : Field} {layouts : List Layout} {t : Primitive} (line : Nat)
    (helement : f.element = .primitive t) (hsingle : f.count = 1)
    (hcovered : f.Covered layouts data.view) :
    Meets (Fault.In data.view Fault.OfValues) (·.HasType t) (data.read line f.name t f.start) := by
  obtain ⟨n, hn, hbounds⟩ := hcovered
  rw [helement] at hn
  cases hn
  have hpos := t.size_pos
  rw [hsingle, Nat.mul_one] at hbounds
  rcases hbounds with hzero | ⟨hstart, hstop, hmax⟩
  · omega
  · exact read_meets ⟨hstart, hstop, hmax⟩

/-- An element of an array can be read if the array has it. -/
theorem read_element {f : Field} {layouts : List Layout} {t : Primitive} (line : Nat)
    (index : Int64) (helement : f.element = .primitive t)
    (hcovered : f.Covered layouts data.view) :
    Meets (Fault.In data.view Fault.OfValues) (·.HasType t)
      (f.elementOffset line t index >>= fun offset => data.read line f.name t offset) := by
  unfold Field.elementOffset
  split
  · next hindex =>
    refine Meets.bind (P := fun offset => offset.toInt = f.start.toInt + index.toInt * t.size)
      (meets_require (.inl trivial) fun offset hoffset => Word.toInt_of_int64? hoffset) ?_
    intro offset _ hoffset
    obtain ⟨n, hn, hbounds⟩ := hcovered
    rw [helement] at hn
    cases hn
    obtain ⟨hlo, hhi⟩ := hindex
    obtain ⟨k, hk⟩ := Int.eq_ofNat_of_zero_le hlo
    -- The element and those in front of it lie within the array.
    have hpart : (k + 1) * t.size ≤ t.size * f.count := by
      rw [Nat.mul_comm t.size]
      exact Nat.mul_le_mul_right _ (by omega)
    have hpos := t.size_pos
    rw [Nat.add_mul, Nat.one_mul] at hpart
    rw [hk, ← Int.natCast_mul] at hoffset
    rcases hbounds with hzero | ⟨hstart, hstop, hmax⟩
    · omega
    · exact read_meets ⟨by omega, by omega, by omega⟩
  · -- The index is refused.
    exact .inl trivial

/-- A typed expression has a value of its type, or stops at a value that is too large, a
    division by zero or an index out of range. -/
theorem eval (h : Agrees Γ s data.view) {e : Expr} (he : e.Typed Γ) :
    Meets (Fault.In data.view Fault.OfValues) (·.HasType e.type) (eval data s e) := by
  -- Evaluation does not change the store, so the parts are covered by the same agreement.
  induction e with
  | literal m value => exact rfl
  | access m t field =>
    obtain ⟨b, hb, harray, ht⟩ := he
    obtain ⟨f, hf, helement, hisArray, hsingle, hcovered⟩ := h.locate m.line hb ht
    have hread := read_single m.line helement (hsingle harray) hcovered
    rw [Execution.eval, hf]
    simp only [bind, Except.bind, Field.primitive, helement, hisArray, harray]
    exact hread
  | element m t baseMark field index ih =>
    obtain ⟨⟨b, hb, harray, ht⟩, hindex, hint⟩ := he
    obtain ⟨f, hf, helement, hisArray, -, hcovered⟩ := h.locate baseMark.line hb ht
    have hprimitive : f.primitive m.line = .ok t := by
      unfold Field.primitive
      rw [helement]
    rw [Execution.eval, hf]
    refine Meets.bind (P := (· = f)) rfl fun f' _ hf' => ?_
    rw [hf', hprimitive]
    refine Meets.bind (P := (· = t)) rfl fun t' _ ht' => ?_
    rw [ht']
    refine (ih hindex).bind fun value _ hvalue => ?_
    cases value with
    | float x =>
      -- The index would have to be an integer and a float.
      have hfloat : index.type.isFloat = true := hvalue
      simp [Primitive.isInteger, hfloat] at hint
    | int i => exact read_element m.line i helement hcovered
  | arith m t op lhs rhs ihl ihr =>
    obtain ⟨hl, hr, rfl⟩ := he
    rw [Execution.eval]
    refine (ihl hl).bind fun a _ ha => (ihr hr).bind fun b _ hb => ?_
    rcases apply_meets op ha hb with ⟨value, hvalue, htype⟩ | ⟨fault, hfault, hkind⟩
    · rw [hvalue]
      exact htype
    · rw [hfault]
      exact .inl hkind.ofValues

end Agrees

end ByteBricks.Execution
