import ByteBricks.Proofs.Execution.Members
import Mathlib.Algebra.Group.Int.Defs
import Mathlib.Algebra.Group.Nat.Defs

/-! # Exact Integers

  An expression of an integer type is computed in 64-bit words, and every operation, index and
  value of a field is checked. What it stands for is said without words: its value over
  unbounded integers, and what each of its steps may violate.

  Main statement: an expression that is evaluated in the course of an execution has its
  unbounded value if all its steps have values of 64 bits, and fails at the first step that
  violates something otherwise. -/

namespace ByteBricks

open Template (Access ArithOp Context Expr)

/-! ### Unbounded Values -/

/-- The bytes of a view from an offset on, if there are so many. -/
def View.bytes? (v : View) (start : Nat) : Nat → Option (List UInt8)
  | 0 => some []
  | count + 1 => do pure ((← v.byte? start) :: (← v.bytes? (start + 1) count))

/-- The integer that the bytes of an integer type stand for. -/
def Primitive.integer (t : Primitive) (order : ByteOrder) (bytes : List UInt8) : Int :=
  if t.isSigned then order.toInt bytes else order.toNat bytes

/-- The result of an operation on unbounded integers. A quotient is truncated toward zero, and
    there is none for the divisor zero. -/
def Template.ArithOp.unbounded? (op : ArithOp) (a b : Int) : Option Int :=
  match op with
  | .add => some (a + b)
  | .sub => some (a - b)
  | .mul => some (a * b)
  | .div => if b = 0 then none else some (a.tdiv b)

/-- The steps of an evaluation, from left to right and operands before operators. -/
def Template.Expr.steps : Expr → List Expr
  | .literal m v => [.literal m v]
  | .access m t a => [.access m t a]
  | .element m t baseMark a index => index.steps ++ [.element m t baseMark a index]
  | .arith m t op lhs rhs => lhs.steps ++ rhs.steps ++ [.arith m t op lhs rhs]

/-- Whether the expression stands for a number in the data. -/
def Template.Expr.isRead : Expr → Bool
  | .access _ _ _ | .element _ _ _ _ _ => true
  | .literal _ _ | .arith _ _ _ _ _ => false

namespace Execution

/-- The integer of a type at an offset of the data. -/
def Data.integer? (data : Data) (t : Primitive) (offset : Int) : Option Int :=
  if t.isInteger then do
    let bytes ← data.view.bytes? (← offset.toNat?) t.size
    pure (t.integer data.order bytes)
  else none

/-- Numbers in the data, one behind the other. -/
structure Site where
  /-- What messages call the numbers. -/
  name : String
  /-- The type of the numbers. -/
  type : Primitive
  /-- The offset of the first number. -/
  start : Int
  /-- How many numbers there are. -/
  count : Nat

/-- The numbers of a field that lies behind an offset. -/
def Field.site? (f : Field) (name : String) (base : Int) : Option Site :=
  match f.element with
  | .primitive t => some ⟨name, t, base + f.start.toInt, f.count⟩
  | .struct _ => none

/-- The numbers of the field or member that a reference stands for. -/
def Store.site? (s : Store) : Access → Option Site
  | .field name => do (← s.field? name.text).site? name.text 0
  | .member owner part => do
    let parent ← s.field? owner.text
    match parent.element with
    | .primitive _ => none
    | .struct i => do
      let layout ← s.layouts[i]?
      let f ← layout.members.find? (·.name == part.text)
      f.site? (owner.text ++ "." ++ part.text) parent.start.toInt

/-- The value of an expression over unbounded integers. There is none if a divisor is zero or
    an index is no element of its array. -/
def unbounded? (data : Data) (store : Store) : Expr → Option Int
  | .literal _ v => some v.toInt
  | .access _ _ a => do
    let site ← store.site? a
    data.integer? site.type site.start
  | .element _ _ _ a index => do
    let site ← store.site? a
    let i ← unbounded? data store index
    if 0 ≤ i ∧ i < site.count then data.integer? site.type (site.start + i * site.type.size)
    else none
  | .arith _ _ op lhs rhs => do
    op.unbounded? (← unbounded? data store lhs) (← unbounded? data store rhs)

/-! ### Violations -/

/-- The expression has an unbounded value, and that is one of 64 bits. -/
def Bounded (data : Data) (store : Store) (e : Expr) : Prop :=
  ∃ i ∈ unbounded? data store e, Word.int64Min ≤ i ∧ i ≤ Word.int64Max

instance (data : Data) (store : Store) (e : Expr) : Decidable (Bounded data store e) :=
  inferInstanceAs (Decidable (∃ i ∈ unbounded? data store e, _))

/-- What an expression violates itself when its operands have their unbounded values, and the
    error for it. -/
inductive Violates (data : Data) (store : Store) : Expr → Error → Prop where
  /-- An index is no element of the array. -/
  | index {m baseMark : Template.Mark} {t : Primitive} {a : Access} {index : Expr} {site : Site}
      {i : Int} : store.site? a = some site → unbounded? data store index = some i →
      ¬ (0 ≤ i ∧ i < site.count) → Violates data store (.element m t baseMark a index)
        ⟨m.line, .indexOutOfRange site.name (Int64.ofInt i) site.count⟩
  /-- The value of a field is too large. -/
  | value {e : Expr} {i : Int} : e.isRead = true → unbounded? data store e = some i →
      Word.int64Max < i →
      Violates data store e ⟨e.mark.line, .valueOutOfRange (UInt64.ofNat i.toNat)⟩
  /-- A divisor is zero. -/
  | divisor {m : Template.Mark} {t : Primitive} {lhs rhs : Expr} :
      unbounded? data store rhs = some 0 →
      Violates data store (.arith m t .div lhs rhs) ⟨m.line, .divisionByZero⟩
  /-- A result is too large or too small. -/
  | result {m : Template.Mark} {t : Primitive} {op : ArithOp} {lhs rhs : Expr} {i : Int} :
      unbounded? data store (.arith m t op lhs rhs) = some i →
      ¬ (Word.int64Min ≤ i ∧ i ≤ Word.int64Max) →
      Violates data store (.arith m t op lhs rhs) ⟨m.line, .overflow⟩

/-- The error is that of the first expression in a list that violates something. -/
def FirstViolation (data : Data) (store : Store) (steps : List Expr) (error : Error) : Prop :=
  ∃ front e back, steps = front ++ e :: back ∧
    (∀ x ∈ front, ∀ error', ¬ Violates data store x error') ∧ Violates data store e error

variable {data : Data} {store : Store} {e x : Expr} {xs ys : List Expr} {error error' : Error}

/-- An element that the array does not have stands for nothing. -/
theorem unbounded?_element_of_out {m baseMark : Template.Mark} {t : Primitive} {a : Access}
    {index : Expr} {site : Site} {i : Int} (hsite : store.site? a = some site)
    (hindex : unbounded? data store index = some i) (hout : ¬ (0 ≤ i ∧ i < site.count)) :
    unbounded? data store (.element m t baseMark a index) = none := by
  simp only [unbounded?, hsite, hindex, Option.bind_eq_bind, Option.bind_some, if_neg hout]

theorem unbounded?_div_of_zero {m : Template.Mark} {t : Primitive} {lhs rhs : Expr}
    (hzero : unbounded? data store rhs = some 0) :
    unbounded? data store (.arith m t .div lhs rhs) = none := by
  simp [unbounded?, hzero, ArithOp.unbounded?]

/-- What violates something has no value of 64 bits. -/
theorem Violates.not_bounded (h : Violates data store e error) : ¬ Bounded data store e := by
  intro hbounded
  obtain ⟨j, hj, hlo, hhi⟩ := hbounded
  cases h with
  | index hsite hindex hout =>
    rw [unbounded?_element_of_out hsite hindex hout] at hj
    cases hj
  | value _ hi hlarge =>
    obtain rfl := Option.some.inj (hi.symm.trans hj)
    exact absurd hhi (Int.not_le.2 hlarge)
  | divisor hzero =>
    rw [unbounded?_div_of_zero hzero] at hj
    cases hj
  | result hi hout =>
    obtain rfl := Option.some.inj (hi.symm.trans hj)
    exact hout ⟨hlo, hhi⟩

/-- An expression violates one thing at most. -/
theorem Violates.unique (h : Violates data store e error) (h' : Violates data store e error') :
    error = error' := by
  cases h with
  | index hsite hindex hout =>
    cases h' with
    | index hsite' hindex' _ =>
      obtain rfl := Option.some.inj (hsite.symm.trans hsite')
      obtain rfl := Option.some.inj (hindex.symm.trans hindex')
      rfl
    | value _ hi _ =>
      rw [unbounded?_element_of_out hsite hindex hout] at hi
      cases hi
  | value hread hi _ =>
    cases h' with
    | index hsite hindex hout =>
      rw [unbounded?_element_of_out hsite hindex hout] at hi
      cases hi
    | value _ hi' _ =>
      obtain rfl := Option.some.inj (hi.symm.trans hi')
      rfl
    | divisor _ => cases hread
    | result _ _ => cases hread
  | divisor hzero =>
    cases h' with
    | value hread _ _ => cases hread
    | divisor _ => rfl
    | result hi _ =>
      rw [unbounded?_div_of_zero hzero] at hi
      cases hi
  | result hi _ =>
    cases h' with
    | value hread _ _ => cases hread
    | divisor hzero =>
      rw [unbounded?_div_of_zero hzero] at hi
      cases hi
    | result _ _ => rfl

namespace FirstViolation

theorem append_left (h : FirstViolation data store xs error) (ys : List Expr) :
    FirstViolation data store (xs ++ ys) error := by
  obtain ⟨front, e, back, rfl, hfront, he⟩ := h
  exact ⟨front, e, back ++ ys, by simp, hfront, he⟩

theorem append_right (h : FirstViolation data store ys error)
    (hxs : ∀ x ∈ xs, Bounded data store x) : FirstViolation data store (xs ++ ys) error := by
  obtain ⟨front, e, back, rfl, hfront, he⟩ := h
  refine ⟨xs ++ front, e, back, by simp, ?_, he⟩
  intro x hx error' hviolates
  rcases List.mem_append.1 hx with hx | hx
  · exact hviolates.not_bounded (hxs x hx)
  · exact hfront x hx error' hviolates

theorem of_last (h : Violates data store e error) (hxs : ∀ x ∈ xs, Bounded data store x) :
    FirstViolation data store (xs ++ [e]) error :=
  append_right ⟨[], e, [], rfl, by simp, h⟩ hxs

theorem not_bounded (h : FirstViolation data store xs error) :
    ¬ ∀ x ∈ xs, Bounded data store x := by
  intro hxs
  obtain ⟨front, e, back, rfl, -, he⟩ := h
  exact he.not_bounded (hxs e (by simp))

/-- There is one first violation at most. -/
theorem unique (h : FirstViolation data store xs error)
    (h' : FirstViolation data store xs error') : error = error' := by
  obtain ⟨front, e, back, rfl, hfront, he⟩ := h
  obtain ⟨front', e', back', heq, hfront', he'⟩ := h'
  -- The one that comes first is the other one too, as nothing in front of that is violated.
  induction front generalizing front' with
  | nil =>
    cases front' with
    | nil =>
      obtain ⟨rfl, -⟩ := List.cons.inj heq
      exact he.unique he'
    | cons x front' =>
      obtain ⟨rfl, -⟩ := List.cons.inj heq
      exact absurd he (hfront' e List.mem_cons_self error)
  | cons x front ih =>
    cases front' with
    | nil =>
      obtain ⟨rfl, -⟩ := List.cons.inj heq
      exact absurd he' (hfront x List.mem_cons_self error')
    | cons y front' =>
      exact ih (List.forall_mem_cons.1 hfront).2 front' (List.cons.inj heq).2
        (List.forall_mem_cons.1 hfront').2

end FirstViolation

/-! ### Reading Integers -/

theorem bytes?_eq_some {v : View} {start : Nat} {bytes : List UInt8}
    (h : ∀ k < bytes.length, bytes[k]? = v.byte? (start + k)) :
    v.bytes? start bytes.length = some bytes := by
  induction bytes generalizing start with
  | nil => rfl
  | cons b bytes ih =>
    have hfirst : v.byte? start = some b := (h 0 (Nat.succ_pos _)).symm
    have hrest : v.bytes? (start + 1) bytes.length = some bytes := by
      apply ih
      intro k hk
      have hnext := h (k + 1) (Nat.succ_lt_succ hk)
      rw [List.getElem?_cons_succ] at hnext
      rw [hnext, Nat.add_assoc, Nat.add_comm 1 k]
    rw [List.length_cons, View.bytes?, hfirst, hrest]
    rfl

theorem numberCount_size_le (t : Primitive) : ByteOrder.numberCount t.size ≤ 2 ^ 64 := by
  cases t <;> decide

/-- As many bytes as a number has stand for a signed integer of 64 bits. -/
theorem toInt_bounds {t : Primitive} {bytes : List UInt8} (hlength : bytes.length = t.size)
    (order : ByteOrder) :
    Word.int64Min ≤ order.toInt bytes ∧ order.toInt bytes ≤ Word.int64Max := by
  have hcount := numberCount_size_le t
  have hnat := order.toNat_lt bytes
  rw [← hlength] at hcount
  unfold ByteOrder.toInt
  have hpos : 0 < ByteOrder.numberCount bytes.length := by omega
  have hlo := Int.le_bmod (x := order.toNat bytes) hpos
  have hhi := Int.bmod_lt (x := order.toNat bytes) hpos
  unfold Word.int64Min Word.int64Max
  omega

theorem int64Min_le_integer {t : Primitive} {bytes : List UInt8} (hlength : bytes.length = t.size)
    (order : ByteOrder) : Word.int64Min ≤ t.integer order bytes := by
  unfold Primitive.integer
  split
  · exact (toInt_bounds hlength order).1
  · unfold Word.int64Min
    omega

/-- The value of a field is the integer that its bytes stand for, unless that is too large. -/
theorem ofNumber_integer {t : Primitive} (ht : t.isInteger = true) (order : ByteOrder)
    {bytes : List UInt8} (hlength : bytes.length = t.size) :
    Value.ofNumber (t.number order bytes) =
      if t.integer order bytes ≤ Word.int64Max then
        .ok (.int (Int64.ofInt (t.integer order bytes)))
      else .error (.valueOutOfRange (UInt64.ofNat (t.integer order bytes).toNat)) := by
  have hfloat : ¬ t.isFloat = true := by simpa [Primitive.isInteger] using ht
  unfold Primitive.number Primitive.integer
  rw [if_neg hfloat]
  by_cases hsigned : t.isSigned = true
  · rw [if_pos hsigned, if_pos hsigned, if_pos (toInt_bounds hlength order).2]
    rfl
  · rw [if_neg hsigned, if_neg hsigned]
    -- The bytes of an unsigned number make up a word.
    have hcount := numberCount_size_le t
    have hnat := order.toNat_lt bytes
    have hword : (UInt64.ofNat (order.toNat bytes)).toNat = order.toNat bytes := by
      rw [hlength] at hnat
      exact UInt64.toNat_ofNat_of_lt' (Nat.lt_of_lt_of_le hnat hcount)
    unfold Value.ofNumber Word.int64?
    dsimp only
    rw [hword, Int.toNat_natCast]
    by_cases hle : (order.toNat bytes : Int) ≤ Word.int64Max
    · have hlo : Word.int64Min ≤ (order.toNat bytes : Int) := by
        unfold Word.int64Min
        omega
      rw [if_pos ⟨hlo, hle⟩, if_pos hle]
    · rw [if_neg fun h => hle h.2, if_neg hle]

/-- A read within the data gives the integer there, unless that is too large. -/
theorem read_integer (hview : data.view.Steady) {t : Primitive} (ht : t.isInteger = true)
    {offset : Int64} (h : data.Holds t offset) (line : Nat) (name : String) :
    ∃ i, data.integer? t offset.toInt = some i ∧ Word.int64Min ≤ i ∧
      data.read line name t offset =
        if i ≤ Word.int64Max then .ok (.int (Int64.ofInt i))
        else fail line (.valueOutOfRange (UInt64.ofNat i.toNat)) := by
  obtain ⟨bytes, hbytes, hlength, hvalue⟩ := read_of_steady hview line name h
  have hstart := h.start
  have hfound : data.view.bytes? offset.toInt.toNat t.size = some bytes := by
    rw [← hlength]
    apply bytes?_eq_some
    intro k hk
    exact hview.getElem?_of_read hbytes (hlength ▸ hk)
  have hoffset : offset.toInt.toNat? = some offset.toInt.toNat := by
    obtain ⟨start, hnat⟩ := Int.eq_ofNat_of_zero_le hstart
    rw [hnat]
    rfl
  refine ⟨t.integer data.order bytes, ?_, int64Min_le_integer hlength _, ?_⟩
  · unfold Data.integer?
    rw [if_pos ht, hoffset, Option.bind_eq_bind, Option.bind_some, hfound]
    rfl
  · rw [hvalue, ← hlength, List.take_length, ofNumber_integer ht _ hlength]
    by_cases hle : t.integer data.order bytes ≤ Word.int64Max
    · rw [if_pos hle, if_pos hle]
    · rw [if_neg hle, if_neg hle]

/-! ### Evaluation -/

/-- What a reference leads to in the store is the place that it stands for. -/
theorem site?_of_locate {line : Nat} {a : Access} {f : Field} {t : Primitive}
    (hf : store.locate line a = .ok f) (ht : f.element = .primitive t) :
    store.site? a = some ⟨f.name, t, f.start.toInt, f.count⟩ := by
  cases a with
  | field name =>
    have hfind := locate_field_eq_ok_iff.1 hf
    have hname : f.name = name.text := by simpa using List.find?_some hfind
    simp only [Store.site?, hfind, Option.bind_eq_bind, Option.bind_some, Field.site?, ht,
      Int.zero_add, hname]
  | member owner part =>
    obtain ⟨parent, i, l, m, start, hparent, hi, hl, hm, hstart, rfl⟩ :=
      locate_member_eq_ok_iff.1 hf
    have hmember : m.element = .primitive t := ht
    simp only [Store.site?, hparent, hi, hl, hm, Option.bind_eq_bind, Option.bind_some,
      Field.site?, hmember, Word.toInt_of_int64? hstart]

theorem exactInt_of_some {op : ArithOp} {a b i : Int} (h : op.unbounded? a b = some i) :
    Value.exactInt op a b = .ok i := by
  cases op with
  | add => exact congrArg Except.ok (Option.some.inj h)
  | sub => exact congrArg Except.ok (Option.some.inj h)
  | mul => exact congrArg Except.ok (Option.some.inj h)
  | div =>
    unfold ArithOp.unbounded? at h
    unfold Value.exactInt
    dsimp only at h ⊢
    by_cases hzero : b = 0
    · rw [if_pos hzero] at h
      cases h
    · rw [if_neg hzero] at h ⊢
      rw [Option.some.inj h]

/-- Only a division has no result. -/
theorem unbounded?_eq_none_iff {op : ArithOp} {a b : Int} :
    op.unbounded? a b = none ↔ op = .div ∧ b = 0 := by
  cases op <;> simp [ArithOp.unbounded?]

/-- An operation on words gives the unbounded result if that is a word. -/
theorem applyInt_of_fits {op : ArithOp} {a b : Int64} {i : Int}
    (h : op.unbounded? a.toInt b.toInt = some i)
    (hrange : Word.int64Min ≤ i ∧ i ≤ Word.int64Max) :
    Value.applyInt op a b = .ok (Int64.ofInt i) := by
  have hword : Word.int64? i = some (Int64.ofInt i) := if_pos hrange
  simp only [Value.applyInt, exactInt_of_some h, bind, Except.bind, hword]

theorem applyInt_of_out {op : ArithOp} {a b : Int64} {i : Int}
    (h : op.unbounded? a.toInt b.toInt = some i)
    (hout : ¬ (Word.int64Min ≤ i ∧ i ≤ Word.int64Max)) :
    Value.applyInt op a b = .error .overflow := by
  have hword : Word.int64? i = none := if_neg hout
  simp only [Value.applyInt, exactInt_of_some h, bind, Except.bind, hword]

theorem applyInt_div_of_zero {a b : Int64} (hzero : b.toInt = 0) :
    Value.applyInt .div a b = .error .divisionByZero := by
  simp only [Value.applyInt, Value.exactInt, hzero, if_true, bind, Except.bind]

/-- What an evaluation comes to: the unbounded value, of which all steps have values of 64
    bits, or the error of the first step that violates something. -/
inductive Answers (data : Data) (store : Store) (e : Expr) : Prop where
  /-- The evaluation gives the unbounded value. -/
  | value {v : Int64} : eval data store e = .ok (.int v) →
      unbounded? data store e = some v.toInt → (∀ x ∈ e.steps, Bounded data store x) →
      Answers data store e
  /-- The evaluation stops at a violation. -/
  | error {error : Error} : eval data store e = .error (.failed error) →
      FirstViolation data store e.steps error → Answers data store e

/-- The last step gives the unbounded value, as a word. -/
theorem answers_of_last {i : Int} (hsteps : e.steps = xs ++ [e])
    (hxs : ∀ x ∈ xs, Bounded data store x) (hi : unbounded? data store e = some i)
    (hrange : Word.int64Min ≤ i ∧ i ≤ Word.int64Max)
    (heval : eval data store e = .ok (.int (Int64.ofInt i))) : Answers data store e := by
  have hword : (Int64.ofInt i).toInt = i := Word.toInt_of_int64? (if_pos hrange)
  have hlast : ∀ x ∈ [e], Bounded data store x := List.forall_mem_singleton.2 ⟨i, hi, hrange⟩
  refine .value heval ?_ ?_
  · rw [hword, hi]
  · rw [hsteps]
    exact List.forall_mem_append.2 ⟨hxs, hlast⟩

/-- A number is read behind steps that violate nothing. -/
theorem answers_of_read {i : Int} (hread : e.isRead = true) (hsteps : e.steps = xs ++ [e])
    (hxs : ∀ x ∈ xs, Bounded data store x) (hi : unbounded? data store e = some i)
    (hlo : Word.int64Min ≤ i)
    (heval : eval data store e =
      if i ≤ Word.int64Max then .ok (.int (Int64.ofInt i))
      else fail e.mark.line (.valueOutOfRange (UInt64.ofNat i.toNat))) :
    Answers data store e := by
  by_cases hhi : i ≤ Word.int64Max
  · rw [if_pos hhi] at heval
    exact answers_of_last hsteps hxs hi ⟨hlo, hhi⟩ heval
  · rw [if_neg hhi] at heval
    refine .error heval ?_
    rw [hsteps]
    exact .of_last (.value hread hi (Int.not_le.1 hhi)) hxs

/-- The number of a single field that lies within the data. -/
theorem answers_of_access (hview : data.view.Steady) {m : Template.Mark} {t : Primitive}
    {a : Access} {f : Field}
    (hf : store.locate m.line a = .ok f) (helement : f.element = .primitive t)
    (hisArray : f.isArray = false) (hcount : f.count = 1)
    (hcovered : f.Covered store.layouts data.view) (ht : t.isInteger = true) :
    Answers data store (.access m t a) := by
  have hholds : data.Holds t f.start :=
    hcovered.holds helement (Int.le_refl 0) (by omega) (by omega)
  obtain ⟨i, hi, hlo, hread⟩ := read_integer hview ht hholds m.line f.name
  have hexact : unbounded? data store (.access m t a) = some i := by
    simp only [unbounded?, site?_of_locate hf helement, Option.bind_eq_bind, Option.bind_some, hi]
  have hsteps : (Expr.access m t a).steps = [] ++ [.access m t a] := rfl
  refine answers_of_read rfl hsteps (by simp) hexact hlo ?_
  rw [eval, hf]
  simp only [bind, Except.bind, Field.primitive, helement, hisArray]
  exact hread

/-- An index of an array leads to an offset if the array lies within the data. -/
theorem Field.Covered.elementOffset {f : Field} {layouts : List Layout} {t : Primitive}
    (h : f.Covered layouts data.view) (ht : f.element = .primitive t) {j : Int64}
    (hin : 0 ≤ j.toInt ∧ j.toInt < f.count) (line : Nat) :
    ∃ offset, f.elementOffset line t j = .ok offset ∧
      offset.toInt = f.start.toInt + j.toInt * t.size := by
  obtain ⟨n, hn, hbounds⟩ := h
  rw [ht] at hn
  cases hn
  obtain ⟨hfront, hend⟩ := element_end_le (t := t) hin.1 hin.2
  have hpos := t.size_pos
  have hrange : Word.int64Min ≤ f.start.toInt + j.toInt * t.size ∧
      f.start.toInt + j.toInt * t.size ≤ Word.int64Max := by
    unfold Word.int64Min
    omega
  have hword : Word.int64? (f.start.toInt + j.toInt * t.size) = some _ := if_pos hrange
  refine ⟨_, ?_, Word.toInt_of_int64? hword⟩
  unfold Field.elementOffset
  rw [if_pos hin, hword]
  rfl

/-- The index is evaluated first, and checked before the element is read. -/
theorem answers_of_element (hview : data.view.Steady) {m baseMark : Template.Mark}
    {t : Primitive} {a : Access}
    {index : Expr} {f : Field} (hf : store.locate baseMark.line a = .ok f)
    (helement : f.element = .primitive t) (hcovered : f.Covered store.layouts data.view)
    (ht : t.isInteger = true) (hindex : Answers data store index) :
    Answers data store (.element m t baseMark a index) := by
  have hsite := site?_of_locate hf helement
  have heval : eval data store (.element m t baseMark a index) =
      (do
        let i ← (← eval data store index).integer m.line
        let offset ← f.elementOffset m.line t i
        data.read m.line f.name t offset) := by
    rw [eval, hf]
    simp only [bind, Except.bind, Field.primitive, helement]
  cases hindex with
  | @value j hj hjx hsteps =>
    rw [hj] at heval
    by_cases hin : 0 ≤ j.toInt ∧ j.toInt < f.count
    · obtain ⟨offset, hoffset, hplace⟩ := hcovered.elementOffset helement hin m.line
      have hholds := hcovered.holds helement hin.1 hin.2 hplace
      obtain ⟨i, hi, hlo, hread⟩ := read_integer hview ht hholds m.line f.name
      have hexact : unbounded? data store (.element m t baseMark a index) = some i := by
        simp only [unbounded?, hsite, hjx, Option.bind_eq_bind, Option.bind_some, if_pos hin]
        rw [← hplace, hi]
      refine answers_of_read rfl rfl hsteps hexact hlo ?_
      simp only [bind, Except.bind, Value.integer, hoffset] at heval
      rw [heval, hread]
      rfl
    · have hout : f.elementOffset m.line t j =
          fail m.line (.indexOutOfRange f.name j f.count) := if_neg hin
      have hviolates : Violates data store (.element m t baseMark a index) _ :=
        .index hsite hjx hin
      simp only [bind, Except.bind, Value.integer, hout] at heval
      rw [Int64.ofInt_toInt] at hviolates
      exact .error heval (.of_last hviolates hsteps)
  | error hfail hfirst =>
    rw [hfail] at heval
    exact .error heval (hfirst.append_left _)

theorem eval_arith (m : Template.Mark) (t : Primitive) (op : ArithOp) {lhs rhs : Expr}
    {a b : Int64} (hl : eval data store lhs = .ok (.int a))
    (hr : eval data store rhs = .ok (.int b)) :
    (∀ v, Value.applyInt op a b = .ok v →
        eval data store (.arith m t op lhs rhs) = .ok (.int v)) ∧
      ∀ fault, Value.applyInt op a b = .error fault →
        eval data store (.arith m t op lhs rhs) = .error (.failed ⟨m.line, fault⟩) := by
  rw [eval, hl, hr]
  constructor
  · intro v hv
    simp only [bind, Except.bind, Value.apply, hv]
    rfl
  · intro fault hfault
    simp only [bind, Except.bind, Value.apply, hfault]
    rfl

/-- The operands have values, and the result of the operation is checked. -/
theorem answers_of_operands {m : Template.Mark} {t : Primitive} {op : ArithOp} {lhs rhs : Expr}
    {a b : Int64} (hl : eval data store lhs = .ok (.int a))
    (hlx : unbounded? data store lhs = some a.toInt) (hls : ∀ x ∈ lhs.steps, Bounded data store x)
    (hr : eval data store rhs = .ok (.int b)) (hrx : unbounded? data store rhs = some b.toInt)
    (hrs : ∀ x ∈ rhs.steps, Bounded data store x) :
    Answers data store (.arith m t op lhs rhs) := by
  have hoperands := List.forall_mem_append.2 ⟨hls, hrs⟩
  have hexact : unbounded? data store (.arith m t op lhs rhs) = op.unbounded? a.toInt b.toInt := by
    simp only [unbounded?, hlx, hrx, Option.bind_eq_bind, Option.bind_some]
  obtain ⟨hvalue, hfail⟩ := eval_arith m t op hl hr
  cases hi : op.unbounded? a.toInt b.toInt with
  | none =>
    obtain ⟨rfl, hzero⟩ := unbounded?_eq_none_iff.1 hi
    rw [hzero] at hrx
    exact .error (hfail _ (applyInt_div_of_zero hzero)) (.of_last (.divisor hrx) hoperands)
  | some i =>
    rw [hi] at hexact
    by_cases hrange : Word.int64Min ≤ i ∧ i ≤ Word.int64Max
    · exact answers_of_last rfl hoperands hexact hrange (hvalue _ (applyInt_of_fits hi hrange))
    · exact .error (hfail _ (applyInt_of_out hi hrange))
        (.of_last (.result hexact hrange) hoperands)

/-- The operands are evaluated from left to right, and their result is checked. -/
theorem answers_of_arith {m : Template.Mark} {t : Primitive} {op : ArithOp} {lhs rhs : Expr}
    (hl : Answers data store lhs) (hr : Answers data store rhs) :
    Answers data store (.arith m t op lhs rhs) := by
  cases hl with
  | @error error hfail hfirst =>
    have heval : eval data store (.arith m t op lhs rhs) = .error (.failed error) := by
      rw [eval, hfail]
      rfl
    exact .error heval ((hfirst.append_left _).append_left _)
  | value hlv hlx hls =>
    cases hr with
    | @error error hfail hfirst =>
      have heval : eval data store (.arith m t op lhs rhs) = .error (.failed error) := by
        rw [eval, hlv, hfail]
        rfl
      exact .error heval ((hfirst.append_right hls).append_left _)
    | value hrv hrx hrs => exact answers_of_operands hlv hlx hls hrv hrx hrs

variable {Γ : Context}

/-- An operation has an integer type only if its operands have. -/
theorem isInteger_operands {t u : Primitive}
    (h : (Template.Resolve.resultType t u).isInteger = true) :
    t.isInteger = true ∧ u.isInteger = true := by
  unfold Template.Resolve.resultType at h
  cases ht : t.isFloat <;> cases hu : u.isFloat <;>
    simp_all [Primitive.isInteger, Primitive.isFloat]

/-- A typed expression of an integer type is computed as exactly as words allow. -/
theorem Agrees.answers (h : Agrees Γ store data.view) (hview : data.view.Steady) (he : e.Typed Γ)
    (hint : e.type.isInteger = true) : Answers data store e := by
  induction e with
  | literal m v =>
    refine .value rfl rfl (List.forall_mem_singleton.2 ⟨v.toInt, rfl, v.le_toInt, ?_⟩)
    exact Int.le_of_lt_add_one v.toInt_lt
  | access m t a =>
    obtain ⟨b, hb, harray, ht⟩ := he
    obtain ⟨f, hf, helement, hisArray, hsingle, hcovered⟩ := h.locate m.line hb ht
    exact answers_of_access hview hf helement (hisArray.trans harray) (hsingle harray) hcovered hint
  | element m t baseMark a index ih =>
    obtain ⟨⟨b, hb, -, ht⟩, hindex, hindexInt⟩ := he
    obtain ⟨f, hf, helement, -, -, hcovered⟩ := h.locate baseMark.line hb ht
    exact answers_of_element hview hf helement hcovered hint (ih hindex hindexInt)
  | arith m t op lhs rhs ihl ihr =>
    obtain ⟨hl, hr, rfl⟩ := he
    obtain ⟨hlint, hrint⟩ := isInteger_operands hint
    exact answers_of_arith (ihl hl hlint) (ihr hr hrint)

/-- What it means that words make no difference to an evaluation but for those violations that
    are reported. -/
structure IsExact (data : Data) (store : Store) (e : Expr) : Prop where
  /-- The value of an evaluation is the unbounded one, and the steps have values of 64 bits. -/
  value : ∀ v : Int64, eval data store e = .ok (.int v) ↔
    unbounded? data store e = some v.toInt ∧ ∀ x ∈ e.steps, Bounded data store x
  /-- An evaluation fails with the error of the first step that violates something. -/
  error : ∀ error, eval data store e = .error (.failed error) ↔
    FirstViolation data store e.steps error
  /-- There is a value or an error. -/
  answer : (∃ v, eval data store e = .ok (.int v)) ∨
    ∃ error, eval data store e = .error (.failed error)

theorem Answers.isExact (h : Answers data store e) : IsExact data store e := by
  cases h with
  | @value v hv hexact hsteps =>
    refine ⟨fun v' => ⟨?_, ?_⟩, fun error => ⟨?_, ?_⟩, .inl ⟨v, hv⟩⟩
    · intro hv'
      rw [hv] at hv'
      cases hv'
      exact ⟨hexact, hsteps⟩
    · intro h
      obtain rfl : v' = v := Int64.toInt_inj.1 (Option.some.inj (h.1.symm.trans hexact))
      exact hv
    · intro herror
      rw [hv] at herror
      cases herror
    · intro hfirst
      exact absurd hsteps hfirst.not_bounded
  | @error error hfail hfirst =>
    refine ⟨fun v => ⟨?_, ?_⟩, fun error' => ⟨?_, ?_⟩, .inr ⟨error, hfail⟩⟩
    · intro hv
      rw [hfail] at hv
      cases hv
    · intro h
      exact absurd h.2 hfirst.not_bounded
    · intro hfail'
      rw [hfail] at hfail'
      cases hfail'
      exact hfirst
    · intro hfirst'
      rw [hfirst.unique hfirst'] at hfail
      exact hfail

/-- **Main theorem.** Wherever the execution of a compiled template evaluates an expression of
    an integer type, the evaluation is exact, be it over bytes or over a file that keeps them. -/
theorem isExact_of_compiled {t : Template} (ht : t.IsCompiled) (w : Wall) {view : View}
    (hview : view.Steady) (options : Options) {done rest : List Command} {c : Command} {s : State}
    (hsplit : commandsOf t.statements = done ++ c :: rest)
    (hrun : run ⟨view, options.order⟩ (.start w options.start) done = (s, none))
    (he : e ∈ c.nodes) (hint : e.type.isInteger = true) :
    IsExact ⟨view, options.order⟩ s.store e := by
  obtain ⟨source, hsource⟩ := ht
  obtain ⟨htyped, -⟩ := Template.typed_of_compile hsource
  rw [hsplit] at htyped
  obtain ⟨hbefore, hc, -⟩ := Template.commandsTyped_append.1 htyped
  have hstart : Agrees .empty (State.start w options.start).store
      (Data.view ⟨view, options.order⟩) := agrees_empty view
  exact ((hstart.run hbefore hrun).answers hview (typed_of_mem_nodes hc he) hint).isExact

/-- A template whose last line divides a difference by another one. -/
def quotient : Template :=
  .ofSource "uint64 big; int8[2] xs; uint8 k; (big - xs[k]) / (k - 3);"

/-- The first operand that the quotient reads. -/
def bigExpr : Expr := .access ⟨4, 1⟩ .uint64 (.field ⟨"big", 45⟩)

/-- The expression of the last line. -/
def quotientExpr : Expr :=
  .arith ⟨12, 1⟩ .int64 .div
    (.arith ⟨8, 1⟩ .int64 .sub bigExpr
      (.element ⟨7, 1⟩ .int8 ⟨5, 1⟩ (.field ⟨"xs", 52⟩)
        (.access ⟨6, 1⟩ .uint8 (.field ⟨"k", 58⟩))))
    (.arith ⟨11, 1⟩ .int64 .sub (.access ⟨9, 1⟩ .uint8 (.field ⟨"k", 63⟩)) (.literal ⟨10, 1⟩ 3))

/-- The bytes of 7, of 2 and -100, and of 1. -/
def quotientBytes : View := .bytes #[7, 0, 0, 0, 0, 0, 0, 0, 2, 156, 1]

/-- The bytes of a number that is too large, and of an index that the array does not have and
    that makes the divisor zero. -/
def faultyBytes : View := .bytes #[7, 0, 0, 0, 0, 0, 0, 255, 2, 156, 3]

/-- The state in front of the last line. -/
def quotientState (view : View) : State :=
  (run ⟨view, .little⟩ (.start .empty 0) ((commandsOf quotient.statements).take 3)).1

/-- The quotient of 107 and -2 is truncated, and of three violations the first one is reported. -/
theorem quotient_isExact :
    eval ⟨quotientBytes, .little⟩ (quotientState quotientBytes).store quotientExpr =
      .ok (.int (-53)) ∧
    eval ⟨faultyBytes, .little⟩ (quotientState faultyBytes).store quotientExpr =
      .error (.failed ⟨1, .valueOutOfRange 0xff00000000000007⟩) := by
  have hcompiled : quotient.IsCompiled := Template.isCompiled_ofSource (by decide +kernel)
  have hsplit : commandsOf quotient.statements =
      (commandsOf quotient.statements).take 3 ++ .evaluate quotientExpr :: [] := by decide +kernel
  have hnode : quotientExpr ∈ (Command.evaluate quotientExpr).nodes := List.mem_cons_self
  constructor
  · have hrun : run ⟨quotientBytes, .little⟩ (.start .empty 0)
        ((commandsOf quotient.statements).take 3) = (quotientState quotientBytes, none) :=
      Prod.ext rfl (by decide +kernel)
    have hexact := isExact_of_compiled hcompiled .empty (View.steady_bytes _) ⟨0, .little⟩ hsplit
      hrun hnode rfl
    exact (hexact.value (-53)).2 ⟨by decide +kernel, by decide +kernel⟩
  · have hrun : run ⟨faultyBytes, .little⟩ (.start .empty 0)
        ((commandsOf quotient.statements).take 3) = (quotientState faultyBytes, none) :=
      Prod.ext rfl (by decide +kernel)
    have hexact := isExact_of_compiled hcompiled .empty (View.steady_bytes _) ⟨0, .little⟩ hsplit
      hrun hnode rfl
    have hsteps : quotientExpr.steps = [] ++ bigExpr :: quotientExpr.steps.tail := rfl
    have hlarge : Violates ⟨faultyBytes, .little⟩ (quotientState faultyBytes).store bigExpr
        ⟨1, .valueOutOfRange (UInt64.ofNat (0xff00000000000007 : Int).toNat)⟩ :=
      .value rfl (by decide +kernel) (by decide)
    exact (hexact.error _).2 ⟨[], bigExpr, _, hsteps, by simp, hlarge⟩

end Execution

end ByteBricks
