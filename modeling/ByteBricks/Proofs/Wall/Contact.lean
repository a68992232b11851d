import ByteBricks.Proofs.Wall.Lookup
import ByteBricks.Proofs.Wall.Order

/-! # Bricks in Each Other's Way

  Two bricks are in each other's way if each of them starts before the other one ends. For
  bricks that cover bytes this says that an offset is in both, at the ends of the range of
  offsets too. It says more for an empty brick, which covers no offset and still lies between
  the ends of another one.

  Main statement: bricks overlap if and only if they share an offset or one of them is empty
  and lies inside the other one. A wall holds no empty brick and accepts none, so there it
  makes no difference. -/

namespace ByteBricks

namespace Brick

/-- There is an offset that both bricks cover. -/
def SharesOffset (a b : Brick) : Prop :=
  ∃ offset : Int64, a.contains offset = true ∧ b.contains offset = true

/-- The brick has no bytes and lies between two offsets of the other one. -/
def IsEmptyWithin (a b : Brick) : Prop := a.size = 0 ∧ b.start < a.start ∧ a.start < b.stop

variable {a b : Brick}

theorem SharesOffset.symm (h : a.SharesOffset b) : b.SharesOffset a := by
  obtain ⟨offset, ha, hb⟩ := h
  exact ⟨offset, hb, ha⟩

/-! ### Empty Bricks -/

theorem stop_of_size_eq_zero (h : b.size = 0) : b.stop = b.start := by
  have hlo : Word.int64Min ≤ b.start.toInt := b.start.le_toInt
  have hhi : b.start.toInt < 2 ^ 63 := b.start.toInt_lt
  have hsize : (b.size.toNat : Int) = 0 := by rw [h]; rfl
  rw [← Int64.toInt_inj, toInt_stop, hsize]
  unfold Word.int64Max Word.int64Min at *
  omega

/-- A brick covers an offset if and only if it ends behind its start. -/
theorem exists_contains_iff : (∃ offset : Int64, b.contains offset = true) ↔ b.start < b.stop := by
  constructor
  · intro h
    obtain ⟨offset, hoffset⟩ := h
    obtain ⟨hstart, hstop⟩ := contains_iff.1 hoffset
    exact Int64.lt_of_le_of_lt hstart hstop
  · intro h
    exact ⟨b.start, contains_iff.2 ⟨Int64.le_refl _, h⟩⟩

theorem not_contains_of_size_eq_zero (h : b.size = 0) (offset : Int64) :
    ¬ b.contains offset = true := by
  intro hoffset
  have hlt : b.start < b.stop := exists_contains_iff.1 ⟨offset, hoffset⟩
  rw [stop_of_size_eq_zero h] at hlt
  exact Int64.lt_irrefl hlt

theorem IsEmptyWithin.not_sharesOffset (h : a.IsEmptyWithin b) : ¬ a.SharesOffset b := by
  intro hshared
  obtain ⟨offset, ha, -⟩ := hshared
  exact not_contains_of_size_eq_zero h.1 offset ha

theorem IsEmptyWithin.overlaps (h : a.IsEmptyWithin b) : a.overlaps b = true := by
  obtain ⟨-, hfront, hback⟩ := h
  have hstop : b.start < a.stop := Int64.lt_of_lt_of_le hfront a.start_le_stop
  simp [Brick.overlaps, hback, hstop]

/-! ### Overlaps -/

/-- Where the later one of two overlapping bricks starts, they share an offset, unless that
    brick is empty. -/
theorem sharesOffset_or_of_start_le (h : a.overlaps b = true) (hle : a.start ≤ b.start) :
    a.SharesOffset b ∨ b.IsEmptyWithin a := by
  simp only [Brick.overlaps, Bool.and_eq_true, decide_eq_true_eq] at h
  obtain ⟨hfront, hback⟩ := h
  by_cases hends : b.start < b.stop
  · left
    exact ⟨b.start, contains_iff.2 ⟨hle, hback⟩, contains_iff.2 ⟨Int64.le_refl _, hends⟩⟩
  · right
    -- It is not cut at the largest offset, as the other brick ends behind its start.
    have hempty : b.size = 0 := by
      by_contra hsize
      exact hends (start_lt_stop hsize hback)
    rw [stop_of_size_eq_zero hempty] at hfront
    exact ⟨hempty, hfront, hback⟩

theorem overlaps_iff :
    a.overlaps b = true ↔ a.SharesOffset b ∨ a.IsEmptyWithin b ∨ b.IsEmptyWithin a := by
  constructor
  · intro h
    rcases Int64.le_total a.start b.start with hle | hle
    · rcases sharesOffset_or_of_start_le h hle with hshared | hempty
      · exact .inl hshared
      · exact .inr (.inr hempty)
    · rw [overlaps_comm] at h
      rcases sharesOffset_or_of_start_le h hle with hshared | hempty
      · exact .inl hshared.symm
      · exact .inr (.inl hempty)
  · rintro (hshared | hempty | hempty)
    · obtain ⟨offset, ha, hb⟩ := hshared
      exact overlaps_of_contains ha hb
    · exact hempty.overlaps
    · rw [overlaps_comm]
      exact hempty.overlaps

/-- Bricks that have bytes overlap if and only if they share an offset. -/
theorem overlaps_iff_sharesOffset (ha : a.size ≠ 0) (hb : b.size ≠ 0) :
    a.overlaps b = true ↔ a.SharesOffset b := by
  rw [overlaps_iff]
  constructor
  · rintro (hshared | hempty | hempty)
    · exact hshared
    · exact absurd hempty.1 ha
    · exact absurd hempty.1 hb
  · exact .inl

/-- **Main theorem.** Two bricks overlap if and only if they share an offset or one of them is
    empty and lies inside the other one; so that they overlap means that they share an offset
    just when neither does. It does not matter which brick is asked, and a brick overlaps
    itself if and only if it covers an offset. -/
theorem overlaps_exactly (a b : Brick) :
    (a.overlaps b = true ↔ a.SharesOffset b ∨ a.IsEmptyWithin b ∨ b.IsEmptyWithin a) ∧
    ((a.overlaps b = true ↔ a.SharesOffset b) ↔ ¬ a.IsEmptyWithin b ∧ ¬ b.IsEmptyWithin a) ∧
    a.overlaps b = b.overlaps a ∧
    (a.overlaps a = true ↔ ∃ offset : Int64, a.contains offset = true) := by
  refine ⟨overlaps_iff, ?_, overlaps_comm a b, ?_⟩
  · rw [overlaps_iff]
    constructor
    · intro h
      constructor
      · intro hempty
        exact hempty.not_sharesOffset (h.1 (.inr (.inl hempty)))
      · intro hempty
        exact hempty.not_sharesOffset (h.1 (.inr (.inr hempty))).symm
    · intro h
      obtain ⟨ha, hb⟩ := h
      simp only [ha, hb, or_false]
  · rw [exists_contains_iff]
    simp [Brick.overlaps]

/-- A brick of the offsets zero and one. -/
def pair : Brick := .plain "b" (.ofPrimitive .uint8) 0 2 0

/-- A brick without bytes between these offsets. -/
def seam : Brick := .plain "b" (.ofPrimitive .uint8) 1 0 0

/-- The two overlap, though no offset is in both. -/
theorem seam_overlaps_pair : seam.overlaps pair = true ∧ ¬ seam.SharesOffset pair := by
  refine ⟨by decide, ?_⟩
  intro h
  obtain ⟨offset, hseam, -⟩ := h
  exact not_contains_of_size_eq_zero rfl offset hseam

end Brick

namespace Wall

variable {w : Wall} {b : Brick}

/-- A wall accepts a brick if and only if its type is known with elements of some bytes, it
    consists of one or more whole elements, and none of its offsets is covered. -/
theorem Coherent.insert_isOk_iff_not_sharesOffset (hw : w.Coherent) :
    (∃ w', w.insert b = .ok w') ↔
      ∃ info, w.typeInfo? b.type = some info ∧ 0 < info.size ∧ 0 < b.size.toNat ∧
        info.size ∣ b.size.toNat ∧ ∀ e ∈ w.bricks, ¬ e.SharesOffset b := by
  have hfree : 0 < b.size.toNat →
      ((∀ e ∈ w.bricks, e.overlaps b = false) ↔ ∀ e ∈ w.bricks, ¬ e.SharesOffset b) := by
    intro hpos
    have hsize : b.size ≠ 0 := by
      intro hzero
      rw [hzero] at hpos
      exact absurd hpos (Nat.lt_irrefl 0)
    apply forall₂_congr
    intro e he
    rw [← Bool.not_eq_true, Brick.overlaps_iff_sharesOffset (hw.solid e he).1 hsize]
  rw [insert_isOk_iff]
  apply exists_congr
  intro info
  constructor
  · rintro ⟨hinfo, hne, hpos, hdvd, hover⟩
    exact ⟨hinfo, hne, hpos, hdvd, (hfree hpos).1 hover⟩
  · rintro ⟨hinfo, hne, hpos, hdvd, hshared⟩
    exact ⟨hinfo, hne, hpos, hdvd, (hfree hpos).2 hshared⟩

end Wall

end ByteBricks
