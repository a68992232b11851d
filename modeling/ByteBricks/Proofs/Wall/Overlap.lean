import ByteBricks.Proofs.Execution.Ledger

/-! # Bytes under Two Bricks

  A wall compares bricks by their ends, and an end is cut off twice: no size counts for more
  than the largest offset, and no end lies beyond it. A brick that is cut covers bytes behind
  its end, which the wall gives to other bricks.

  Main statement: two bricks of a reachable wall share a byte only if the earlier one is cut,
  and no executed template places such a brick. -/

namespace ByteBricks

namespace Brick

/-- The brick covers a byte. Offsets are unbounded here, so that no end is cut off. -/
def Covers (b : Brick) (x : Int) : Prop :=
  b.start.toInt ≤ x ∧ x < b.start.toInt + b.size.toNat

/-- The size of the brick or the offset behind its last byte exceeds the largest offset. -/
def IsCut (b : Brick) : Prop :=
  Word.int64Max < b.size.toNat ∨ Word.int64Max < b.start.toInt + b.size.toNat

instance (b : Brick) : Decidable b.IsCut :=
  inferInstanceAs (Decidable (_ ∨ _))

/-- A brick is cut if it goes on behind its end. -/
theorem isCut_iff {b : Brick} : b.IsCut ↔ b.stop.toInt < b.start.toInt + b.size.toNat := by
  have hlo : Word.int64Min ≤ b.start.toInt := b.start.le_toInt
  have hhi : b.start.toInt < 2 ^ 63 := b.start.toInt_lt
  unfold IsCut
  rw [toInt_stop]
  unfold Word.int64Max Word.int64Min at *
  omega

end Brick

namespace Wall

/-- No byte is covered by bricks at two positions. -/
def BytesDisjoint (w : Wall) : Prop :=
  ∀ (i j : Nat) (a b : Brick) (x : Int), w.bricks[i]? = some a → w.bricks[j]? = some b →
    a.Covers x → b.Covers x → i = j

variable {w w' : Wall} {a b : Brick}

/-! ### Shared Bytes -/

/-- Of two bricks that share a byte, the earlier one is cut, and the byte lies behind its
    end. -/
theorem Coherent.isCut_of_covers (hw : w.Coherent) {i j : Nat} {x : Int} (hij : i < j)
    (ha : w.bricks[i]? = some a) (hb : w.bricks[j]? = some b) (hax : a.Covers x)
    (hbx : b.Covers x) : a.IsCut ∧ a.stop.toInt ≤ x := by
  have hord : a.stop.toInt ≤ b.start.toInt :=
    Int64.le_iff_toInt_le.1 (hw.consecutive ha hb hij)
  have hbehind : a.stop.toInt ≤ x := Int.le_trans hord hbx.1
  exact ⟨Brick.isCut_iff.2 (Int.lt_of_le_of_lt hbehind hax.2), hbehind⟩

theorem Coherent.start_le_start (hw : w.Coherent) {i j : Nat} (hij : i ≤ j)
    (ha : w.bricks[i]? = some a) (hb : w.bricks[j]? = some b) :
    a.start.toInt ≤ b.start.toInt := by
  rcases Nat.lt_or_eq_of_le hij with hlt | rfl
  · have hord := hw.consecutive ha hb hlt
    exact Int64.le_iff_toInt_le.1 (Int64.le_trans a.start_le_stop hord)
  · rw [ha] at hb
    cases hb
    exact Int.le_refl _

/-- A brick covers its start. -/
theorem Coherent.covers_start (hw : w.Coherent) (hb : b ∈ w.bricks) :
    b.Covers b.start.toInt := by
  have hpos : b.size.toNat ≠ 0 := by
    intro hzero
    exact (hw.solid b hb).1 (UInt64.toNat_inj.1 hzero)
  unfold Brick.Covers
  omega

/-- It is enough to look at the next brick behind each one that is cut. -/
theorem Coherent.bytesDisjoint_iff (hw : w.Coherent) :
    w.BytesDisjoint ↔ ∀ (k : Nat) (a b : Brick), w.bricks[k]? = some a →
      w.bricks[k + 1]? = some b → a.IsCut → a.start.toInt + a.size.toNat ≤ b.start.toInt := by
  constructor
  · intro hdisjoint k a b ha hb _
    by_contra hlt
    -- Otherwise the first brick covers the start of the second one.
    have hstart := hw.start_le_start (Nat.le_succ k) ha hb
    have hax : a.Covers b.start.toInt := ⟨hstart, Int.not_le.1 hlt⟩
    have hbx := hw.covers_start (List.mem_of_getElem? hb)
    exact absurd (hdisjoint k (k + 1) a b _ ha hb hax hbx) (Nat.ne_of_lt (Nat.lt_succ_self k))
  · intro hnext
    -- Everything that a brick covers lies in front of all later bricks.
    have hlater : ∀ (i j : Nat) (a b : Brick) (x : Int), i < j → w.bricks[i]? = some a →
        w.bricks[j]? = some b → a.Covers x → ¬ b.Covers x := by
      intro i j a b x hij ha hb hax hbx
      obtain ⟨hcut, -⟩ := hw.isCut_of_covers hij ha hb hax hbx
      have hlt : i + 1 < w.bricks.length :=
        Nat.lt_of_le_of_lt hij (List.getElem?_eq_some_iff.1 hb).1
      have hsucc : w.bricks[i + 1]? = some w.bricks[i + 1] := List.getElem?_eq_getElem hlt
      have hend := hnext i a _ ha hsucc hcut
      have hstart := hw.start_le_start hij hsucc hb
      have hx := hax.2
      have hx' := hbx.1
      omega
    intro i j a b x ha hb hax hbx
    rcases Nat.lt_trichotomy i j with hij | hij | hij
    · exact absurd hbx (hlater i j a b x hij ha hb hax)
    · exact hij
    · exact absurd hax (hlater j i b a x hij hb ha hbx)

/-! ### Where Cut Bricks Come From -/

theorem mem_bricks_of_insert (h : w.insert b = .ok w') {e : Brick} (he : e ∈ w'.bricks) :
    e = b ∨ e ∈ w.bricks := by
  obtain ⟨info, -, -, -, -, -, rfl⟩ := insert_eq_ok_iff.1 h
  exact mem_place.1 he

end Wall

namespace Execution

open Wall

variable {data : Data} {s s' : State} {w w' : Wall} {b : Brick}

/-- The brick of a field ends within the data. -/
theorem not_isCut_of_field {size : Nat} {stop : Int64} (hsize : b.size = UInt64.ofNat size)
    (hmax : size ≤ Word.uint64Max) (hstop : fieldStop b.start size = some stop) : ¬ b.IsCut := by
  obtain ⟨hle, hfits⟩ := fieldStop_eq_some_iff.1 hstop
  obtain ⟨-, hend, -⟩ := Word.int64?_eq_some_iff.1 hfits
  have hbytes : b.size.toNat = size := by
    rw [hsize]
    exact UInt64.toNat_ofNat_of_lt' (Nat.lt_succ_of_le hmax)
  unfold Brick.IsCut
  omega

/-- A cut brick behind a step was there before it. -/
theorem mem_bricks_of_step (hs : s.Defined) (hw : s.wall.Coherent) {c : Command}
    (h : step data s c = .ok s') (hb : b ∈ s'.wall.bricks) (hcut : b.IsCut) :
    b ∈ s.wall.bricks := by
  cases c with
  | declare line struct members =>
    obtain ⟨body, index, wall, -, hfound, rfl⟩ := declareStruct_eq_ok_iff.1 h
    obtain ⟨-, hbricks, -⟩ := definitions_of_obtain hw hfound
    rw [← hbricks]
    exact hb
  | place d =>
    obtain ⟨e, he, ⟨-, rfl⟩ | ⟨-, stop, answer, hstop, -, hanswer, rfl⟩⟩ :=
      placeField_eq_ok_iff.1 h
    · exact hb
    · cases answer with
      | error rejection => exact hb
      | ok wall =>
        obtain ⟨brick, hinsert, -, hstart, hsize, -⟩ := insertField_eq_ok hs.definedIn he hanswer
        obtain ⟨-, -, -, -, -, hmax⟩ := extent_eq_ok_iff.1 he
        rw [← hstart] at hstop
        rcases mem_bricks_of_insert hinsert.symm hb with rfl | hold
        · exact absurd hcut (not_isCut_of_field hsize hmax hstop)
        · exact hold
  | evaluate e =>
    obtain ⟨value, -, rfl⟩ := noteValue_eq_ok_iff.1 h
    exact hb

theorem mem_bricks_of_execute (hw : w.Coherent) {t : Template} {view : View} {options : Options}
    (hb : b ∈ (t.execute w view options).wall.bricks) (hcut : b.IsCut) : b ∈ w.bricks := by
  have hrun : (t.runOn w view options).1.wall.Coherent ∧ (t.runOn w view options).1.Defined ∧
      (b ∈ (t.runOn w view options).1.wall.bricks → b ∈ w.bricks) := by
    refine run_induction (P := fun s => s.wall.Coherent ∧ s.Defined ∧
      (b ∈ s.wall.bricks → b ∈ w.bricks)) ?_ ⟨hw, defined_start w _, id⟩
    intro s s' c _ hs hstep
    obtain ⟨hcoherent, hdefined, hback⟩ := hs
    refine ⟨hcoherent.step hstep, (hdefined.step hcoherent hstep).2, ?_⟩
    exact fun h => hback (mem_bricks_of_step hdefined hcoherent hstep h hcut)
  unfold Template.execute at hb
  split at hb
  · next s heq =>
    rw [heq] at hrun
    exact hrun.2.2 hb
  · exact hb

end Execution

namespace Wall

variable {w w' : Wall} {a b : Brick}

/-- The operation asks the wall to take the brick, alone or for instances of a struct. -/
def Operation.Places (op : Operation) (w : Wall) (b : Brick) : Prop :=
  op = .insert b ∨ ∃ name start count index, op = .insertStruct name start count index ∧
    w.insertStruct name start count index = w.insert b

/-- A brick that the wall takes for instances of a struct is the one that it stands for. -/
theorem insertStruct_eq_insert {name : String} {start : Int64} {count : Int32} {index : Nat}
    (h : w.insertStruct name start count index = .ok w') :
    ∃ b, w.insertStruct name start count index = w.insert b := by
  obtain ⟨b, hb⟩ := insert_of_insertStruct h
  exact ⟨b, h.trans hb.symm⟩

theorem mem_bricks_of_settle {r : Option Wall} {P : Prop}
    (h : ∀ w', r = some w' → b ∈ w'.bricks → b ∈ w.bricks ∨ P)
    (hb : b ∈ (w.settle r).1.bricks) : b ∈ w.bricks ∨ P := by
  cases r with
  | some w' => exact h w' rfl hb
  | none => exact .inl hb

/-- A cut brick was there before an operation, or is the one that is inserted. -/
theorem Coherent.places_of_isCut (hw : w.Coherent) {op : Operation}
    (hb : b ∈ (w.perform op).1.bricks) (hcut : b.IsCut) : b ∈ w.bricks ∨ op.Places w b := by
  cases op with
  | insert e =>
    refine mem_bricks_of_settle (fun w' h hmem => ?_) hb
    rcases mem_bricks_of_insert (toOption_eq_some_iff.1 h) hmem with rfl | hold
    · exact .inr (.inl rfl)
    · exact .inl hold
  | insertStruct name start count index =>
    refine mem_bricks_of_settle (fun w' h hmem => ?_) hb
    have hok := toOption_eq_some_iff.1 h
    obtain ⟨e, he⟩ := insertStruct_eq_insert hok
    rcases mem_bricks_of_insert (he.symm.trans hok) hmem with rfl | hold
    · exact .inr (.inr ⟨name, start, count, index, rfl, he⟩)
    · exact .inl hold
  | eraseAt offset => exact .inl (List.mem_of_mem_eraseP hb)
  | define name color => exact .inl hb
  | appendMember index member =>
    refine mem_bricks_of_settle (fun w' h hmem => .inl ?_) hb
    obtain ⟨d, info, d', -, -, -, -, -, -, rfl⟩ := appendMember?_eq_some_iff.1 h
    exact hmem
  | execute t _ view options => exact .inl (Execution.mem_bricks_of_execute hw hb hcut)

/-- **Main theorem.** In a reachable wall, a byte is under two bricks only if the earlier one is
    cut and the byte lies behind its end. All bytes are under one brick at most if and only if
    each cut brick leaves the next one free. A cut brick is never placed by a template: it is
    one that an operation was asked to insert. -/
theorem bytesDisjoint_iff_of_reachable (hw : w.Reachable) :
    (w.BytesDisjoint ↔ ∀ (k : Nat) (a b : Brick), w.bricks[k]? = some a →
      w.bricks[k + 1]? = some b → a.IsCut → a.start.toInt + a.size.toNat ≤ b.start.toInt) ∧
    (∀ (i j : Nat) (a b : Brick) (x : Int), i < j → w.bricks[i]? = some a →
      w.bricks[j]? = some b → a.Covers x → b.Covers x → a.IsCut ∧ a.stop.toInt ≤ x) ∧
    ∀ (op : Operation) (b : Brick), b ∈ (w.perform op).1.bricks → b.IsCut →
      b ∈ w.bricks ∨ op.Places w b := by
  have hc := hw.coherent
  refine ⟨hc.bytesDisjoint_iff, ?_, ?_⟩
  · intro i j a b x hij ha hb hax hbx
    exact hc.isCut_of_covers hij ha hb hax hbx
  · intro op b hb hcut
    exact hc.places_of_isCut hb hcut

/-- A wall with a brick that is cut and no brick behind it. -/
def laden : Wall :=
  let head : Operation := .insert (.plain "head" (.ofPrimitive .uint8) 0 8 0)
  let rest : Operation := .insert (.plain "rest" (.ofPrimitive .uint8) 8 0xffffffffffffffff 0)
  ((Wall.empty.perform head).1.perform rest).1

theorem laden_reachable : laden.Reachable :=
  .perform _ (.perform _ .empty (by decide +kernel)) (by decide +kernel)

theorem laden_bytesDisjoint : laden.Reachable ∧ (∃ b ∈ laden.bricks, b.IsCut) ∧
    laden.BytesDisjoint := by
  refine ⟨laden_reachable, by decide +kernel, ?_⟩
  apply (bytesDisjoint_iff_of_reachable laden_reachable).1.2
  intro k a b ha hb hcut
  -- Only the first brick has one behind it.
  have hlength : laden.bricks.length = 2 := by decide +kernel
  have hlt : k + 1 < laden.bricks.length := (List.getElem?_eq_some_iff.1 hb).1
  obtain rfl : k = 0 := by omega
  have hfirst : laden.bricks[0]? = some (.plain "head" (.ofPrimitive .uint8) 0 8 0) := by
    decide +kernel
  rw [hfirst] at ha
  cases ha
  exact absurd hcut (by decide +kernel)

/-- A wall with a brick of the bytes up to offset eight that counts as one that ends in front
    of offset zero, and a brick of the first eight bytes. -/
def buried : Wall :=
  let long : Operation :=
    .insert (.plain "a" (.ofPrimitive .uint8) Int64.minValue 0x8000000000000008 0)
  let short : Operation := .insert (.plain "b" (.ofPrimitive .uint8) 0 8 0)
  ((Wall.empty.perform long).1.perform short).1

theorem buried_reachable : buried.Reachable :=
  .perform _ (.perform _ .empty (by decide +kernel)) (by decide +kernel)

/-- Both bricks cover the first byte. -/
theorem buried_not_bytesDisjoint : buried.Reachable ∧ ¬ buried.BytesDisjoint := by
  refine ⟨buried_reachable, ?_⟩
  intro h
  have hlong : buried.bricks[0]? =
      some (.plain "a" (.ofPrimitive .uint8) Int64.minValue 0x8000000000000008 0) := by
    decide +kernel
  have hshort : buried.bricks[1]? = some (.plain "b" (.ofPrimitive .uint8) 0 8 0) := by
    decide +kernel
  have hsame := h 0 1 _ _ 0 hlong hshort (by unfold Brick.Covers; decide +kernel)
    (by unfold Brick.Covers; decide +kernel)
  simp at hsame

end Wall

end ByteBricks
