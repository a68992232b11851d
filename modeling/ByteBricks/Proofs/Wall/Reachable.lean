import ByteBricks.Proofs.Execution.Definitions
import ByteBricks.Template.Compile

/-! # Reachable Walls

  The walls that operations lead to from the wall without bricks and definitions.
  Every operation reports whether it succeeded. Main statement: all these walls are
  coherent, and an operation that reports a failure changes nothing. -/

namespace ByteBricks

namespace Template

/-- The template is the meaning of some source. -/
def IsCompiled (t : Template) : Prop := ∃ source, compile source = .ok t

/-- The template of a source, and one without statements if the source has none. -/
def ofSource (source : String) : Template :=
  match compile source with
  | .ok t => t
  | .error _ => ⟨[], .empty, 0⟩

theorem isCompiled_ofSource {source : String} (h : (compile source).toBool = true) :
    (ofSource source).IsCompiled := by
  refine ⟨source, ?_⟩
  unfold ofSource
  cases hc : compile source with
  | ok t => rfl
  | error e => simp [hc, Except.toBool] at h

end Template

namespace Wall

open Execution (Options)

/-! ### Operations -/

/-- An operation on a wall. -/
inductive Operation where
  /-- Inserts a brick. -/
  | insert (b : Brick)
  /-- Inserts one brick for a number of consecutive instances of a struct. -/
  | insertStruct (name : String) (start : Int64) (count : Int32) (index : Nat)
  /-- Removes the brick that covers an offset. -/
  | eraseAt (offset : Int64)
  /-- Adds a definition without members. -/
  | define (name : String) (color : Color)
  /-- Appends a member to a definition. -/
  | appendMember (index : Nat) (member : Brick)
  /-- Executes a compiled template. -/
  | execute (t : Template) (compiled : t.IsCompiled) (view : View) (options : Options)

/-- The wall after an attempt, and whether the attempt succeeded. -/
def settle (w : Wall) : Option Wall → Wall × Bool
  | some w' => (w', true)
  | none => (w, false)

/-- The wall after an operation, and whether the operation reports success. -/
def perform (w : Wall) : Operation → Wall × Bool
  | .insert b => w.settle (w.insert b).toOption
  | .insertStruct name start count index =>
    w.settle (w.insertStruct name start count index).toOption
  | .eraseAt offset => (w.eraseAt offset, (w.brick? offset).isSome)
  | .define name color => (w.define name color, true)
  | .appendMember index member => w.settle (w.appendMember? index member)
  | .execute t _ view options =>
    let outcome := t.execute w view options
    (outcome.wall, outcome.result.toBool)

/-- A wall that operations lead to while it has few enough definitions. -/
inductive Reachable : Wall → Prop where
  | empty : Reachable .empty
  | perform {w : Wall} (op : Operation) :
      Reachable w → (w.perform op).1.Small → Reachable (w.perform op).1

/-! ### Steps -/

theorem Coherent.settle {w : Wall} (hw : w.Coherent) {r : Option Wall}
    (h : ∀ w', r = some w' → w'.Coherent) : (w.settle r).1.Coherent := by
  cases r with
  | some w' => exact h w' rfl
  | none => exact hw

theorem toOption_eq_some_iff {ε α : Type} {r : Except ε α} {a : α} :
    r.toOption = some a ↔ r = .ok a := by
  cases r <;> simp [Except.toOption]

theorem Coherent.perform {w : Wall} (hw : w.Coherent) (op : Operation) :
    (w.perform op).1.Coherent := by
  cases op with
  | insert b => exact hw.settle fun w' h => hw.insert (toOption_eq_some_iff.1 h)
  | insertStruct name start count index =>
    -- The struct brick is inserted as any other brick.
    refine hw.settle fun w' h => ?_
    obtain ⟨b, hb⟩ := insert_of_insertStruct (toOption_eq_some_iff.1 h)
    exact hw.insert hb
  | eraseAt offset => exact hw.eraseAt offset
  | define name color => exact hw.define name color
  | appendMember index member => exact hw.settle fun w' h => hw.appendMember? h
  | execute t _ view options => exact hw.execute t view options

theorem Reachable.coherent {w : Wall} (hw : w.Reachable) : w.Coherent := by
  induction hw with
  | empty => exact coherent_empty
  | perform op _ _ ih => exact ih.perform op

theorem Reachable.small {w : Wall} (hw : w.Reachable) : w.Small := by
  cases hw with
  | empty => exact (by decide : 0 < definitionLimit)
  | perform op _ hsmall => exact hsmall

theorem settle_of_failure {w : Wall} {r : Option Wall} (h : (w.settle r).2 = false) :
    (w.settle r).1 = w := by
  cases r with
  | some w' => simp [settle] at h
  | none => rfl

/-- An operation that reports a failure leaves the wall as it was. -/
theorem perform_of_failure {w : Wall} {op : Operation} (h : (w.perform op).2 = false) :
    (w.perform op).1 = w := by
  cases op with
  | insert b => exact settle_of_failure h
  | insertStruct name start count index => exact settle_of_failure h
  | eraseAt offset =>
    -- Without a brick at the offset there is nothing to remove.
    have hnone : ∀ b ∈ w.bricks, ¬ b.contains offset = true := by
      simpa [Wall.perform, brick?] using h
    show w.eraseAt offset = w
    unfold eraseAt
    rw [List.eraseP_of_forall_not hnone]
  | define name color => simp [Wall.perform] at h
  | appendMember index member => exact settle_of_failure h
  | execute t _ view options =>
    cases hresult : (t.execute w view options).result with
    | ok r => simp [Wall.perform, hresult, Except.toBool] at h
    | error halt =>
      -- The bricks and definitions of an execution that stops are given up.
      obtain ⟨s, -, hwall⟩ := Execution.execute_eq_error_iff.1 hresult
      exact hwall

/-! ### The Representation -/

/-- What a user of a wall may rely on. -/
structure WellFormed (w : Wall) : Prop where
  /-- A brick ends before the next one starts. -/
  consecutive : ∀ (k : Nat) (a b : Brick), w.bricks[k]? = some a → w.bricks[k + 1]? = some b →
    a.stop ≤ b.start
  /-- The bricks are sorted by their starts. -/
  sorted : w.bricks.Pairwise fun a b => a.start ≤ b.start
  /-- No offset is covered by two bricks. -/
  disjoint : ∀ (i j : Nat) (a b : Brick) (offset : Int64), w.bricks[i]? = some a →
    w.bricks[j]? = some b → a.contains offset = true → b.contains offset = true → i = j
  /-- Every brick covers bytes and has a known type. -/
  solid : ∀ b ∈ w.bricks, 0 < b.size ∧ ∃ info, w.typeInfo? b.type = some info
  /-- The size of a definition is the exact sum of its members' sizes. -/
  sizes : ∀ d ∈ w.definitions, d.size.toNat = bytesOf d.members
  /-- A member is of a primitive type or of a struct that was defined before. -/
  grounded : ∀ (i : Nat) (d : Definition), w.definitions[i]? = some d → ∀ m ∈ d.members,
    (∃ t, m.type = .ofPrimitive t) ∨ ∃ j < i, m.type = .ofStruct j
  /-- The code of a definition gives its name and size. -/
  structInfo : ∀ (i : Nat) (d : Definition), w.definitions[i]? = some d →
    w.typeInfo? (.ofStruct i) = some ⟨d.name.text, d.size.toNat⟩
  /-- The code of a primitive type gives its name and size. -/
  primitiveInfo : ∀ t, w.typeInfo? (.ofPrimitive t) = some ⟨t.name, t.size⟩
  /-- No other code is known. -/
  otherInfo : ∀ c, (∀ t, c ≠ .ofPrimitive t) →
    (∀ i < w.definitions.length, c ≠ .ofStruct i) → w.typeInfo? c = none

theorem Coherent.consecutive {w : Wall} (hw : w.Coherent) {i j : Nat} {a b : Brick}
    (ha : w.bricks[i]? = some a) (hb : w.bricks[j]? = some b) (hij : i < j) :
    a.stop ≤ b.start := by
  obtain ⟨hi, rfl⟩ := List.getElem?_eq_some_iff.1 ha
  obtain ⟨hj, rfl⟩ := List.getElem?_eq_some_iff.1 hb
  exact List.pairwise_iff_getElem.1 hw.ordered i j hi hj hij

theorem Coherent.sorted {w : Wall} (hw : w.Coherent) :
    w.bricks.Pairwise fun a b => a.start ≤ b.start :=
  hw.ordered.imp fun h => Int64.le_trans (Brick.start_le_stop _) h

/-- An offset that an earlier brick covers lies before all later bricks. -/
theorem Coherent.not_contains_later {w : Wall} (hw : w.Coherent) {i j : Nat} {a b : Brick}
    {offset : Int64} (ha : w.bricks[i]? = some a) (hb : w.bricks[j]? = some b) (hij : i < j)
    (hin : a.contains offset = true) : ¬ b.contains offset = true := by
  intro hin'
  have hstop : offset < a.stop := (Brick.contains_iff.1 hin).2
  have hstart : b.start ≤ offset := (Brick.contains_iff.1 hin').1
  exact Int64.not_lt.2 (Int64.le_trans (hw.consecutive ha hb hij) hstart) hstop

theorem Coherent.disjoint {w : Wall} (hw : w.Coherent) {i j : Nat} {a b : Brick}
    {offset : Int64} (ha : w.bricks[i]? = some a) (hb : w.bricks[j]? = some b)
    (hin : a.contains offset = true) (hin' : b.contains offset = true) : i = j := by
  -- Of two different bricks, one comes first and ends before the other.
  rcases Nat.lt_trichotomy i j with hij | hij | hij
  · exact absurd hin' (hw.not_contains_later ha hb hij hin)
  · exact hij
  · exact absurd hin (hw.not_contains_later hb ha hij hin')

theorem Coherent.member_type {w : Wall} (hw : w.Coherent) {i : Nat} {d : Definition}
    (hd : w.definitions[i]? = some d) {m : Brick} (hm : m ∈ d.members) :
    (∃ t, m.type = .ofPrimitive t) ∨ ∃ j < i, m.type = .ofStruct j := by
  rcases mayContain_iff.1 (hw.grounded i d hd m hm) with ht | ⟨-, j, hj, hindex⟩
  · exact .inl ht
  · exact .inr ⟨j, hj, TypeCode.eq_ofStruct_of_structIndex? hindex⟩

theorem Coherent.typeInfo?_eq_none {w : Wall} (hw : w.Coherent) {c : TypeCode}
    (hprim : ∀ t, c ≠ .ofPrimitive t) (hstruct : ∀ i < w.definitions.length, c ≠ .ofStruct i) :
    w.typeInfo? c = none := by
  rw [hw.typeInfo?_eq]
  cases hc : c.primitive? with
  | some t => exact absurd (TypeCode.eq_ofPrimitive_of_primitive? hc) (hprim t)
  | none =>
    cases hi : c.structIndex? with
    | none => rfl
    | some i =>
      have hlen : w.definitions.length ≤ i := by
        by_contra hlt
        exact hstruct i (Nat.lt_of_not_le hlt) (TypeCode.eq_ofStruct_of_structIndex? hi)
      simp [List.getElem?_eq_none hlen]

/-- **Main theorem.** Every reachable wall is well formed, and an operation on it that
    reports a failure leaves it as it was. -/
theorem wellFormed_of_reachable {w : Wall} (hw : w.Reachable) :
    w.WellFormed ∧ ∀ op, (w.perform op).2 = false → (w.perform op).1 = w := by
  have hc := hw.coherent
  refine ⟨?_, fun op h => perform_of_failure h⟩
  constructor
  case consecutive => exact fun k a b ha hb => hc.consecutive ha hb (Nat.lt_succ_self k)
  case sorted => exact hc.sorted
  case disjoint => exact fun i j a b offset ha hb hin hin' => hc.disjoint ha hb hin hin'
  case solid =>
    intro b hb
    obtain ⟨hsize, hinfo⟩ := hc.solid b hb
    exact ⟨UInt64.pos_iff_ne_zero.2 hsize, Option.isSome_iff_exists.1 hinfo⟩
  case sizes => exact hc.summed
  case grounded => exact fun i d hd m hm => hc.member_type hd hm
  case structInfo =>
    intro i d hd
    have hlt : i < w.definitions.length := (List.getElem?_eq_some_iff.1 hd).1
    rw [hc.typeInfo?_ofStruct (hw.small.coded.lt_structCount hlt), hd]
    rfl
  case primitiveInfo => exact hc.typeInfo?_ofPrimitive
  case otherInfo => exact fun c hprim hstruct => hc.typeInfo?_eq_none hprim hstruct

/-- A wall with a struct brick, two bricks at the largest offset, which are not in each
    other's way, and the bricks of an execution. -/
def crowded : Wall :=
  let pixel : Operation := .appendMember 0 (.plain "rgb" (.ofPrimitive .uint8) 0 3 0)
  let edge : Operation :=
    .insert (.plain "edge" (.ofPrimitive .uint8) 0x7fffffffffffffff 1 0)
  let tail : Operation :=
    .execute (.ofSource "struct Pixel \x7b uint8[2] rgb; \x7d Pixel[2] tail;")
      (Template.isCompiled_ofSource (by decide +kernel)) (.bytes #[1, 2, 3, 4, 5, 6]) ⟨1, .little⟩
  let operations := [.define "Pixel" 0, pixel, .insertStruct "row" 5 4 0, edge, edge, tail]
  operations.foldl (fun w op => (w.perform op).1) .empty

theorem crowded_reachable : crowded.Reachable :=
  .perform _ (.perform _ (.perform _ (.perform _ (.perform _ (.perform _ .empty
    (by decide +kernel)) (by decide +kernel)) (by decide +kernel)) (by decide +kernel))
    (by decide +kernel)) (by decide +kernel)

theorem crowded_wellFormed :
    crowded.Reachable ∧ crowded.bricks.length = 4 ∧ crowded.definitions.length = 2 ∧
      crowded.WellFormed ∧
      ∀ op, (crowded.perform op).2 = false → (crowded.perform op).1 = crowded :=
  ⟨crowded_reachable, by decide +kernel, by decide +kernel,
    wellFormed_of_reachable crowded_reachable⟩

end Wall

end ByteBricks
