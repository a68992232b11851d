import ByteBricks.Proofs.Wall.Reachable

/-! # The Order of Insertions

  A brick is placed by its end, in front of the first brick that starts there or later, and
  each insertion changes the list that the next one searches. At the largest offset a brick
  ends where it starts, so bricks that start there are not in each other's way, and the one
  that is inserted last comes first.

  Main statement: bricks that start at different offsets, are not in each other's way and are
  each accepted by a wall can be inserted in any order, and all orders give the same wall. -/

namespace ByteBricks

namespace Brick

variable {a b : Brick}

theorem overlaps_comm (a b : Brick) : a.overlaps b = b.overlaps a := Bool.and_comm _ _

end Brick

namespace Wall

variable {w w' : Wall} {a b e : Brick} {bricks bs bs' : List Brick}

/-! ### Two Bricks -/

theorem place_cons_of_lt (h : e.start < b.stop) : place (e :: bricks) b = e :: place bricks b := by
  unfold place
  rw [List.takeWhile_cons_of_pos (by simpa using h), List.dropWhile_cons_of_pos (by simpa using h)]
  rfl

theorem place_cons_of_le (h : b.stop ≤ e.start) : place (e :: bricks) b = b :: e :: bricks := by
  have hnot : ¬ e.start < b.stop := Int64.not_lt.2 h
  unfold place
  rw [List.takeWhile_cons_of_neg (by simpa using hnot),
    List.dropWhile_cons_of_neg (by simpa using hnot)]
  rfl

/-- A brick finds its place in front of another one that starts behind its end, whether that
    one is there already or comes later. -/
theorem place_comm_of_le (hstop : a.stop ≤ b.start) (hstart : a.start < b.start) :
    place (place bricks a) b = place (place bricks b) a := by
  have hfront : a.start < b.stop := Int64.lt_of_lt_of_le hstart b.start_le_stop
  have hends : a.stop ≤ b.stop := Int64.le_trans hstop b.start_le_stop
  -- Both go past the bricks in front of the end of `a`; then `a` has its place, and it does not
  -- matter where behind it `b` goes.
  induction bricks with
  | nil =>
    show place [a] b = place [b] a
    rw [place_cons_of_lt hfront, place_cons_of_le hstop]
    rfl
  | cons e bricks ih =>
    by_cases ha : e.start < a.stop
    · have hb : e.start < b.stop := Int64.lt_of_lt_of_le ha hends
      rw [place_cons_of_lt ha, place_cons_of_lt hb, place_cons_of_lt hb, place_cons_of_lt ha, ih]
    · have ha' : a.stop ≤ e.start := Int64.not_lt.1 ha
      rw [place_cons_of_le ha', place_cons_of_lt hfront]
      by_cases hb : e.start < b.stop
      · rw [place_cons_of_lt hb, place_cons_of_le ha']
      · rw [place_cons_of_le (Int64.not_lt.1 hb), place_cons_of_le hstop]

theorem place_comm (hfree : a.overlaps b = false) (hstart : a.start ≠ b.start) :
    place (place bricks a) b = place (place bricks b) a := by
  rcases Brick.not_overlaps_iff.1 hfree with hstop | hstop
  · have hle : b.start ≤ a.start := Int64.le_trans b.start_le_stop hstop
    exact (place_comm_of_le hstop (Int64.lt_of_le_of_ne hle hstart.symm)).symm
  · have hle : a.start ≤ b.start := Int64.le_trans a.start_le_stop hstop
    exact place_comm_of_le hstop (Int64.lt_of_le_of_ne hle hstart)

/-- What a wall accepts, it accepts with one more brick that is not in the way. -/
theorem insert_insert_isOk (ha : w.insert a = .ok w') (hb : ∃ v, w.insert b = .ok v)
    (hfree : a.overlaps b = false) :
    w'.insert b = .ok { w with bricks := place (place w.bricks a) b } := by
  obtain ⟨-, -, -, -, -, -, rfl⟩ := insert_eq_ok_iff.1 ha
  obtain ⟨v, hb⟩ := hb
  obtain ⟨info, hinfo, hsize, hne, hmod, hothers, -⟩ := insert_eq_ok_iff.1 hb
  refine insert_eq_ok_iff.2 ⟨info, hinfo, hsize, hne, hmod, ?_, rfl⟩
  intro e he
  rcases mem_place.1 he with rfl | he
  · exact hfree
  · exact hothers e he

/-! ### Lists of Bricks -/

/-- Inserts bricks one after the other, up to the first one that is refused. -/
def insertAll (w : Wall) (bs : List Brick) : Except Rejection Wall := bs.foldlM Wall.insert w

theorem insertAll_cons_of_insert (h : w.insert b = .ok w') :
    w.insertAll (b :: bs) = w'.insertAll bs := by
  unfold insertAll
  rw [List.foldlM_cons, h]
  rfl

/-- Bricks that a wall accepts one by one, and that do not get into each other's way. -/
structure Independent (w : Wall) (bs : List Brick) : Prop where
  /-- The bricks start at different offsets. -/
  distinct : bs.Pairwise fun a b => a.start ≠ b.start
  /-- No two of the bricks overlap. -/
  apart : bs.Pairwise fun a b => a.overlaps b = false
  /-- Each brick alone is accepted. -/
  accepted : ∀ b ∈ bs, ∃ w', w.insert b = .ok w'

theorem Independent.perm (h : w.Independent bs) (hperm : bs.Perm bs') : w.Independent bs' where
  distinct := (hperm.pairwise_iff fun hne => hne.symm).1 h.distinct
  apart := (hperm.pairwise_iff fun hfree => (Brick.overlaps_comm _ _).trans hfree).1 h.apart
  accepted := fun b hb => h.accepted b (hperm.mem_iff.2 hb)

/-- One of the bricks is inserted, and the others are as independent as they were. -/
theorem Independent.insert (h : w.Independent (b :: bs)) :
    ∃ w', w.insert b = .ok w' ∧ w'.Independent bs := by
  obtain ⟨w', hb⟩ := h.accepted b List.mem_cons_self
  refine ⟨w', hb, h.distinct.of_cons, h.apart.of_cons, fun e he => ?_⟩
  have hfree : b.overlaps e = false := List.rel_of_pairwise_cons h.apart he
  exact ⟨_, insert_insert_isOk hb (h.accepted e (List.mem_cons_of_mem b he)) hfree⟩

/-- All bricks are inserted, and nothing else changes. -/
theorem Independent.insertAll (h : w.Independent bs) :
    ∃ bricks, w.insertAll bs = .ok { w with bricks := bricks } ∧
      bricks.Perm (w.bricks ++ bs) := by
  induction bs generalizing w with
  | nil => exact ⟨w.bricks, rfl, by simp⟩
  | cons b bs ih =>
    obtain ⟨w', hb, hrest⟩ := h.insert
    obtain ⟨bricks, hall, hperm⟩ := ih hrest
    obtain ⟨-, -, -, -, -, -, rfl⟩ := insert_eq_ok_iff.1 hb
    refine ⟨bricks, (insertAll_cons_of_insert hb).trans hall, ?_⟩
    have hplace : (place w.bricks b ++ bs).Perm (w.bricks ++ [b] ++ bs) :=
      (place_perm w.bricks b).append_right bs
    rw [List.append_assoc, List.singleton_append] at hplace
    exact hperm.trans hplace

theorem Independent.insertAll_swap (h : w.Independent (a :: b :: bs)) :
    w.insertAll (a :: b :: bs) = w.insertAll (b :: a :: bs) := by
  have hfree : a.overlaps b = false := List.rel_of_pairwise_cons h.apart List.mem_cons_self
  have hstart : a.start ≠ b.start := List.rel_of_pairwise_cons h.distinct List.mem_cons_self
  obtain ⟨wa, ha⟩ := h.accepted a (by simp)
  obtain ⟨wb, hb⟩ := h.accepted b (by simp)
  have hab := insert_insert_isOk ha ⟨wb, hb⟩ hfree
  have hba := insert_insert_isOk hb ⟨wa, ha⟩ ((Brick.overlaps_comm b a).trans hfree)
  rw [insertAll_cons_of_insert ha, insertAll_cons_of_insert hb, insertAll_cons_of_insert hab,
    insertAll_cons_of_insert hba, place_comm hfree hstart]

theorem Independent.insertAll_perm (h : w.Independent bs) (hperm : bs.Perm bs') :
    w.insertAll bs = w.insertAll bs' := by
  induction hperm generalizing w with
  | nil => rfl
  | cons b _ ih =>
    obtain ⟨w', hb, hrest⟩ := h.insert
    rw [insertAll_cons_of_insert hb, insertAll_cons_of_insert hb, ih hrest]
  | swap a b l => exact h.insertAll_swap
  | trans hfirst _ ih ih' => exact (ih h).trans (ih' (h.perm hfirst))

theorem Coherent.insertAll (hw : w.Coherent) (h : w.insertAll bs = .ok w') : w'.Coherent := by
  induction bs generalizing w with
  | nil =>
    cases h
    exact hw
  | cons b bs ih =>
    cases hb : w.insert b with
    | error r =>
      unfold Wall.insertAll at h
      rw [List.foldlM_cons, hb] at h
      cases h
    | ok v =>
      rw [insertAll_cons_of_insert hb] at h
      exact ih (hw.insert hb) h

/-- **Main theorem.** Bricks with different starts that do not overlap each other, and that a
    reachable wall accepts one by one, are all accepted in whatever order they are inserted. All
    orders lead to one wall, whose bricks are the old ones and the new ones, each behind the end
    of those in front of it. -/
theorem insertAll_order_independent (hw : w.Reachable) (h : w.Independent bs) :
    ∃ bricks : List Brick, bricks.Perm (w.bricks ++ bs) ∧
      bricks.Pairwise (fun a b => a.stop ≤ b.start) ∧
      ∀ bs' : List Brick, bs'.Perm bs → w.insertAll bs' = .ok { w with bricks := bricks } := by
  obtain ⟨bricks, hall, hperm⟩ := h.insertAll
  refine ⟨bricks, hperm, (hw.coherent.insertAll hall).ordered, fun bs' hperm' => ?_⟩
  rw [← h.insertAll_perm hperm'.symm, hall]

/-- A brick in a gap, one that is cut off at the largest offset, and one that starts there. -/
def newcomers : List Brick :=
  [.plain "gap" (.ofPrimitive .uint16) 17 4 0,
    .plain "reach" (.ofPrimitive .uint8) 0x7ffffffffffffff0 0xffffffffffffffff 0,
    .plain "edge" (.ofPrimitive .uint8) 0x7fffffffffffffff 3 0]

theorem newcomers_independent : crowded.Independent newcomers where
  distinct := by decide +kernel
  apart := by decide +kernel
  accepted := by
    have haccepts : ∀ b ∈ newcomers, (crowded.insert b).toOption.isSome = true := by decide +kernel
    intro b hb
    obtain ⟨w', hw'⟩ := Option.isSome_iff_exists.1 (haccepts b hb)
    exact ⟨w', toOption_eq_some_iff.1 hw'⟩

/-- The wall has two bricks at the largest offset already. -/
theorem crowded_insertAll_order_independent :
    crowded.Reachable ∧ crowded.Independent newcomers ∧
      ∃ bricks : List Brick, bricks.length = 7 ∧
        crowded.insertAll newcomers = .ok { crowded with bricks := bricks } ∧
        crowded.insertAll newcomers.reverse = .ok { crowded with bricks := bricks } := by
  obtain ⟨bricks, hperm, -, horders⟩ :=
    insertAll_order_independent crowded_reachable newcomers_independent
  have hlength : (crowded.bricks ++ newcomers).length = 7 := by decide +kernel
  exact ⟨crowded_reachable, newcomers_independent, bricks, hperm.length_eq.trans hlength,
    horders _ (.refl _), horders _ (List.reverse_perm _)⟩

end Wall

end ByteBricks
