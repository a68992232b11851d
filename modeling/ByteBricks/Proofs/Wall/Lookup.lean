import ByteBricks.Proofs.Wall.Reachable

/-! # Inserting, Looking Up and Removing

  A wall answers to a brick by four checks in a fixed order, and looks bricks up by scanning
  its list from the front. That the scans give what a user means, the one brick that covers
  an offset and the first of the bricks in the way, rests on the order of the list.

  Main statement: which bricks are inserted and why others are refused, and that a brick that
  was inserted is found at its offsets alone, and taken back by removing it there. -/

namespace ByteBricks

namespace Brick

variable {a b : Brick}

/-- Bricks that share an offset overlap. -/
theorem overlaps_of_contains {offset : Int64} (ha : a.contains offset = true)
    (hb : b.contains offset = true) : a.overlaps b = true := by
  obtain ⟨hastart, hastop⟩ := contains_iff.1 ha
  obtain ⟨hbstart, hbstop⟩ := contains_iff.1 hb
  have hfront : a.start < b.stop := Int64.lt_of_le_of_lt hastart hbstop
  have hback : b.start < a.stop := Int64.lt_of_le_of_lt hbstart hastop
  simp [overlaps, hfront, hback]

/-- Only a brick at the largest offset ends where it starts. -/
theorem start_lt_stop (hsize : b.size ≠ 0) {x : Int64} (hx : b.start < x) : b.start < b.stop := by
  have hpos : b.size.toNat ≠ 0 := fun hzero => hsize (UInt64.toNat_inj.1 hzero)
  have hlo : Word.int64Min ≤ b.start.toInt := b.start.le_toInt
  have hhi : x.toInt < 2 ^ 63 := x.toInt_lt
  rw [Int64.lt_iff_toInt_lt] at hx ⊢
  rw [toInt_stop]
  unfold Word.int64Max Word.int64Min at *
  omega

end Brick

namespace Wall

variable {w w' : Wall} {b e : Brick} {offset : Int64}

/-! ### The First Brick in the Way -/

/-- Among the bricks in the way, the one with the smallest start is found. -/
theorem Coherent.find?_overlaps_eq_some_iff (hw : w.Coherent) :
    w.bricks.find? (·.overlaps b) = some e ↔
      e ∈ w.bricks ∧ e.overlaps b = true ∧
        ∀ e' ∈ w.bricks, e'.overlaps b = true → e.start ≤ e'.start := by
  -- What is found splits the list: no brick in front is in the way, all others start later.
  have hfirst : ∀ {x : Brick}, w.bricks.find? (·.overlaps b) = some x →
      x.overlaps b = true ∧ ∀ e' ∈ w.bricks, e'.overlaps b = true → e' = x ∨ x.stop ≤ e'.start := by
    intro x hx
    obtain ⟨hover, front, back, hsplit, hfree⟩ := List.find?_eq_some_iff_append.1 hx
    refine ⟨hover, fun e' he' hover' => ?_⟩
    have hord := hw.ordered
    rw [hsplit] at he' hord
    rcases List.mem_append.1 he' with hfront | htail
    · have hnot := hfree e' hfront
      simp [hover'] at hnot
    · rcases List.mem_cons.1 htail with heq | hback
      · exact .inl heq
      · exact .inr (List.rel_of_pairwise_cons (List.pairwise_append.1 hord).2.1 hback)
  constructor
  · intro h
    obtain ⟨hover, hlater⟩ := hfirst h
    refine ⟨List.mem_of_find?_eq_some h, hover, fun e' he' hover' => ?_⟩
    rcases hlater e' he' hover' with rfl | hstop
    · exact Int64.le_refl _
    · exact Int64.le_trans e.start_le_stop hstop
  · intro h
    obtain ⟨hmem, hover, hleast⟩ := h
    obtain ⟨x, hx⟩ : ∃ x, w.bricks.find? (·.overlaps b) = some x :=
      Option.isSome_iff_exists.1 (List.find?_isSome.2 ⟨e, hmem, hover⟩)
    obtain ⟨hxover, hlater⟩ := hfirst hx
    have hxmem := List.mem_of_find?_eq_some hx
    rw [hx]
    rcases hlater e hmem hover with heq | hstop
    · rw [heq]
    · -- A later brick starts behind the end of the first one, so not at its start.
      have hfront : x.start < b.stop := by
        simp only [Brick.overlaps, Bool.and_eq_true, decide_eq_true_eq] at hxover
        exact hxover.1
      have hlt : x.start < x.stop := Brick.start_lt_stop (hw.solid x hxmem).1 hfront
      have hle : e.start ≤ x.start := hleast x hxmem hxover
      exact absurd hlt (Int64.not_lt.2 (Int64.le_trans hstop hle))

/-! ### Answers -/

/-- Why the wall refuses a brick: the first of the checks that the brick does not pass. -/
inductive Refuses (w : Wall) (b : Brick) : Rejection → Prop where
  /-- The type of the brick is not known. -/
  | unknownType : w.typeInfo? b.type = none → Refuses w b (.unknownType b.name)
  /-- The brick covers no bytes. -/
  | empty {info : TypeInfo} : w.typeInfo? b.type = some info → b.size = 0 →
      Refuses w b (.empty b.name)
  /-- An element has no bytes, or the brick does not consist of whole elements. -/
  | misaligned {info : TypeInfo} : w.typeInfo? b.type = some info → b.size ≠ 0 →
      ¬ (0 < info.size ∧ info.size ∣ b.size.toNat) →
      Refuses w b (.misaligned b.name info.size)
  /-- There are bricks in the way, and this one starts first. -/
  | overlap {info : TypeInfo} {e : Brick} : w.typeInfo? b.type = some info → b.size ≠ 0 →
      0 < info.size → info.size ∣ b.size.toNat → e ∈ w.bricks → e.overlaps b = true →
      (∀ e' ∈ w.bricks, e'.overlaps b = true → e.start ≤ e'.start) →
      Refuses w b (.overlap b.name e.name)

theorem insert_isOk_iff :
    (∃ w', w.insert b = .ok w') ↔
      ∃ info, w.typeInfo? b.type = some info ∧ 0 < info.size ∧ 0 < b.size.toNat ∧
        info.size ∣ b.size.toNat ∧ ∀ e ∈ w.bricks, e.overlaps b = false := by
  have hpos : b.size ≠ 0 ↔ 0 < b.size.toNat := by
    rw [Nat.pos_iff_ne_zero, ne_eq, ne_eq, ← UInt64.toNat_inj]
    rfl
  constructor
  · intro h
    obtain ⟨w', h⟩ := h
    obtain ⟨info, hinfo, hsize, hne, hmod, hfree, -⟩ := insert_eq_ok_iff.1 h
    exact ⟨info, hinfo, Nat.pos_of_ne_zero hne, hpos.1 hsize, Nat.dvd_of_mod_eq_zero hmod, hfree⟩
  · intro h
    obtain ⟨info, hinfo, hne, hsize, hdvd, hfree⟩ := h
    exact ⟨_, insert_eq_ok_iff.2 ⟨info, hinfo, hpos.2 hsize, Nat.ne_of_gt hne,
      Nat.mod_eq_zero_of_dvd hdvd, hfree, rfl⟩⟩

/-- Whatever speaks against a brick, the wall refuses the brick for it. -/
theorem Coherent.insert_of_refuses (hw : w.Coherent) {r : Rejection} (h : w.Refuses b r) :
    w.insert b = .error r := by
  cases h with
  | unknownType hinfo => simp only [Wall.insert, hinfo]
  | empty hinfo hsize => simp only [Wall.insert, hinfo, hsize, if_true]
  | @misaligned info hinfo hsize halign =>
    have hbad : info.size = 0 ∨ b.size.toNat % info.size ≠ 0 := by
      rw [Nat.dvd_iff_mod_eq_zero] at halign
      omega
    simp only [Wall.insert, hinfo, hsize, hbad, if_true, if_false]
  | overlap hinfo hsize hpos hdvd hmem hover hleast =>
    rw [insert_of_aligned hinfo hsize (Nat.ne_of_gt hpos) (Nat.mod_eq_zero_of_dvd hdvd),
      hw.find?_overlaps_eq_some_iff.2 ⟨hmem, hover, hleast⟩]

/-- A wall has a reason to refuse each brick that it does not insert. -/
theorem Coherent.isOk_or_refuses (hw : w.Coherent) (b : Brick) :
    (∃ w', w.insert b = .ok w') ∨ ∃ r, w.Refuses b r := by
  cases hinfo : w.typeInfo? b.type with
  | none => exact .inr ⟨_, .unknownType hinfo⟩
  | some info =>
    by_cases hsize : b.size = 0
    · exact .inr ⟨_, .empty hinfo hsize⟩
    by_cases halign : 0 < info.size ∧ info.size ∣ b.size.toNat
    · obtain ⟨hpos, hdvd⟩ := halign
      cases hfind : w.bricks.find? (·.overlaps b) with
      | none =>
        have hinsert := insert_of_aligned hinfo hsize (Nat.ne_of_gt hpos)
          (Nat.mod_eq_zero_of_dvd hdvd)
        rw [hfind] at hinsert
        exact .inl ⟨_, hinsert⟩
      | some e =>
        obtain ⟨hmem, hover, hleast⟩ := hw.find?_overlaps_eq_some_iff.1 hfind
        exact .inr ⟨_, .overlap hinfo hsize hpos hdvd hmem hover hleast⟩
    · exact .inr ⟨_, .misaligned hinfo hsize halign⟩

theorem Coherent.insert_eq_error_iff (hw : w.Coherent) {r : Rejection} :
    w.insert b = .error r ↔ w.Refuses b r := by
  constructor
  · intro h
    rcases hw.isOk_or_refuses b with ⟨w', hok⟩ | ⟨r', hr'⟩
    · rw [h] at hok
      cases hok
    · -- There is only one answer, so this is the reason that is reported.
      have hanswer := hw.insert_of_refuses hr'
      rw [h] at hanswer
      cases hanswer
      exact hr'
  · exact hw.insert_of_refuses

/-! ### Looking Up and Removing -/

/-- No other brick covers an offset of the new one. -/
theorem not_contains_of_insert (h : w.insert b = .ok w') (hb : b.contains offset = true) :
    ∀ e ∈ w.bricks, ¬ e.contains offset = true := by
  obtain ⟨-, -, -, -, -, hfree, -⟩ := insert_eq_ok_iff.1 h
  intro e he hin
  have hover := Brick.overlaps_of_contains hin hb
  simp [hfree e he] at hover

/-- The new brick is found at each offset that it covers. -/
theorem brick?_of_insert (h : w.insert b = .ok w') (hb : b.contains offset = true) :
    w'.brick? offset = some b := by
  have hothers := not_contains_of_insert h hb
  obtain ⟨-, -, -, -, -, -, rfl⟩ := insert_eq_ok_iff.1 h
  have hfront : (w.bricks.takeWhile (·.start < b.stop)).find? (·.contains offset) = none := by
    rw [List.find?_eq_none]
    exact fun e he => hothers e ((List.takeWhile_sublist _).mem he)
  show (place w.bricks b).find? (·.contains offset) = some b
  rw [place, List.find?_append, hfront, Option.none_or]
  exact List.find?_cons_of_pos hb

/-- At all other offsets, what was found before is found. -/
theorem brick?_of_insert_of_not (h : w.insert b = .ok w') (hb : b.contains offset = false) :
    w'.brick? offset = w.brick? offset := by
  obtain ⟨-, -, -, -, -, -, rfl⟩ := insert_eq_ok_iff.1 h
  exact find?_place hb

/-- To take a brick off the wall is to look it up and to remove it. -/
theorem takeAt?_eq (w : Wall) (offset : Int64) :
    w.takeAt? offset = (w.brick? offset).map fun b => (b, w.eraseAt offset) := by
  unfold takeAt? brick? eraseAt
  rw [List.find?_eq_bind_findIdx?_getElem?, List.eraseP_eq_eraseIdx]
  cases w.bricks.findIdx? (·.contains offset) with
  | none => rfl
  | some i =>
    rw [Option.bind_some, Option.map_eq_bind]
    rfl

/-- Removing the new brick leaves the others in the order that they had. -/
theorem eraseAt_of_insert (h : w.insert b = .ok w') (hb : b.contains offset = true) :
    w'.eraseAt offset = w := by
  have hothers := not_contains_of_insert h hb
  obtain ⟨-, -, -, -, -, -, rfl⟩ := insert_eq_ok_iff.1 h
  have herase : (place w.bricks b).eraseP (·.contains offset) = w.bricks := by
    have hfront : ∀ e ∈ w.bricks.takeWhile (·.start < b.stop), ¬ e.contains offset = true :=
      fun e he => hothers e ((List.takeWhile_sublist _).mem he)
    rw [place, List.eraseP_append_right _ hfront, List.eraseP_cons, hb, cond_true]
    exact List.takeWhile_append_dropWhile
  unfold eraseAt
  dsimp only
  rw [herase]

theorem takeAt?_of_insert (h : w.insert b = .ok w') (hb : b.contains offset = true) :
    w'.takeAt? offset = some (b, w) := by
  rw [takeAt?_eq, brick?_of_insert h hb, eraseAt_of_insert h hb]
  rfl

/-- **Main theorem.** A brick is inserted if and only if its type is known with elements of some
    bytes, it consists of one or more whole elements, and no brick is in its way; otherwise the
    first of these conditions that fails is reported. Then it is found at the offsets that it
    covers and nothing changes at the others, and to take it off the wall at one of them undoes
    the insertion. -/
theorem insert_lookup_erase (hw : w.Reachable) (b : Brick) :
    ((∃ w', w.insert b = .ok w') ↔
      ∃ info, w.typeInfo? b.type = some info ∧ 0 < info.size ∧ 0 < b.size.toNat ∧
        info.size ∣ b.size.toNat ∧ ∀ e ∈ w.bricks, e.overlaps b = false) ∧
    (∀ r, w.insert b = .error r ↔ w.Refuses b r) ∧
    ∀ w', w.insert b = .ok w' → ∀ offset : Int64,
      (b.start ≤ offset ∧ offset < b.stop →
        w'.brick? offset = some b ∧ w'.takeAt? offset = some (b, w)) ∧
      (¬ (b.start ≤ offset ∧ offset < b.stop) → w'.brick? offset = w.brick? offset) := by
  have hc := hw.coherent
  refine ⟨insert_isOk_iff, fun r => hc.insert_eq_error_iff, ?_⟩
  intro w' h offset
  constructor
  · intro hin
    have hb := Brick.contains_iff.2 hin
    exact ⟨brick?_of_insert h hb, takeAt?_of_insert h hb⟩
  · intro hout
    have hb : b.contains offset = false := by
      rw [← Bool.not_eq_true, Brick.contains_iff]
      exact hout
    exact brick?_of_insert_of_not h hb

/-- A brick in the gap behind the struct brick of the crowded wall. -/
def gapBrick : Brick := .plain "gap" (.ofPrimitive .uint16) 17 4 0

/-- A brick that covers the gap and the bricks in front of it. -/
def wideBrick : Brick := .plain "wide" (.ofPrimitive .uint8) 3 20 0

/-- The one brick is inserted, and the other one is refused for the first of two bricks in its
    way. -/
theorem crowded_insert_lookup_erase :
    crowded.Reachable ∧
      (∃ w', crowded.insert gapBrick = .ok w' ∧ w'.brick? 20 = some gapBrick ∧
        w'.takeAt? 20 = some (gapBrick, crowded) ∧ w'.brick? 16 = crowded.brick? 16) ∧
      crowded.Refuses wideBrick (.overlap wideBrick.name (Label.ofString "tail")) := by
  obtain ⟨haccepts, -, hinserted⟩ := insert_lookup_erase crowded_reachable gapBrick
  obtain ⟨-, hrefuses, -⟩ := insert_lookup_erase crowded_reachable wideBrick
  obtain ⟨w', h⟩ := haccepts.2 ⟨⟨"uint16", 2⟩, by decide +kernel, by decide, by decide,
    by decide, by decide +kernel⟩
  obtain ⟨hin, -⟩ := hinserted w' h 20
  obtain ⟨-, hout⟩ := hinserted w' h 16
  obtain ⟨hfound, htaken⟩ := hin (by decide)
  exact ⟨crowded_reachable, ⟨w', h, hfound, htaken, hout (by decide)⟩,
    (hrefuses _).1 (by decide +kernel)⟩

end Wall

end ByteBricks
