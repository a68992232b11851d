import ByteBricks.Proofs.BlockStore
import Mathlib.Data.Multiset.Range

/-! # What a Block Store Contains

  A store contains a multiset of elements with their handles if these are all that it has.
  Each handle names one element, so an element can be changed while all others stay. -/

namespace ByteBricks.BlockStore

variable {α : Type} {s : BlockStore α} {m m' : Multiset (Handle × α)} {h : Handle} {a : α}

/-! ### Stores that Stand for a List -/

/-- The store stands for some list. -/
def Sound (s : BlockStore α) : Prop := ∃ l, s.Holds l

theorem sound_empty : (empty : BlockStore α).Sound := ⟨[], holds_empty⟩

theorem Holds.sound {l : List α} (hl : s.Holds l) : s.Sound := ⟨l, hl⟩

/-- Cleared stores cannot be told apart. -/
theorem Sound.clear (hs : s.Sound) : s.clear = empty :=
  hs.elim fun _ hl => hl.clear

theorem Holds.modify {l : List α} (hl : s.Holds l) (f : α → α) (hget : s.get? h = some a) :
    (s.modify h f).Holds (l.set h.raw (f a)) := by
  unfold BlockStore.modify
  rw [hget]
  exact hl.set h (f a)

theorem push_fst (s : BlockStore α) (a : α) : (s.push a).1 = ⟨s.size⟩ := rfl

@[simp] theorem push_size (s : BlockStore α) (a : α) : (s.push a).2.size = s.size + 1 := rfl

@[simp] theorem set_size (s : BlockStore α) (h : Handle) (a : α) : (s.set h a).size = s.size := by
  unfold BlockStore.set
  split <;> rfl

@[simp] theorem modify_size (s : BlockStore α) (h : Handle) (f : α → α) :
    (s.modify h f).size = s.size := by
  unfold BlockStore.modify
  split
  · exact set_size s h _
  · rfl

/-! ### Entries -/

/-- The elements with their handles, in the order in which they were stored. -/
def entries (s : BlockStore α) : List (Handle × α) := s.toList.zipIdx.map fun p => (⟨p.2⟩, p.1)

/-- The entries are what is found. -/
theorem Sound.mem_entries (hs : s.Sound) : (h, a) ∈ s.entries ↔ s.get? h = some a := by
  obtain ⟨l, hl⟩ := hs
  unfold entries
  rw [hl.toList, hl.get?, List.mem_map]
  constructor
  · intro hmem
    obtain ⟨⟨b, i⟩, hb, heq⟩ := hmem
    cases heq
    exact List.mk_mem_zipIdx_iff_getElem?.1 hb
  · intro hget
    exact ⟨(a, h.raw), List.mk_mem_zipIdx_iff_getElem?.2 hget, rfl⟩

/-! ### Contents -/

/-- The elements of a multiset are found under their handles. -/
def Has (s : BlockStore α) (m : Multiset (Handle × α)) : Prop :=
  ∀ p ∈ m, s.get? p.1 = some p.2

@[simp] theorem has_singleton : s.Has {(h, a)} ↔ s.get? h = some a := by
  simp [Has]

@[simp] theorem has_add : s.Has (m + m') ↔ s.Has m ∧ s.Has m' := by
  simp [Has, or_imp, forall_and]

/-- The store contains the elements of a multiset under their handles, and no others. -/
structure Contains (s : BlockStore α) (m : Multiset (Handle × α)) : Prop where
  /-- It stands for a list. -/
  sound : s.Sound
  /-- The elements are found. -/
  has : s.Has m
  /-- There is one element for each position. -/
  handles : m.map (·.1.raw) = Multiset.range s.size

namespace Contains

theorem empty : (BlockStore.empty : BlockStore α).Contains 0 where
  sound := sound_empty
  has := by simp [Has]
  handles := rfl

theorem of_eq (hs : s.Contains m) (h : m' = m) : s.Contains m' := h ▸ hs

/-- A store has as many elements as it contains. -/
theorem card (hs : s.Contains m) : m.card = s.size := by
  rw [← Multiset.card_map (·.1.raw), hs.handles, Multiset.card_range]

/-- Contents that are listed in the order of their handles are the entries. -/
theorem entries {l : List (Handle × α)} (hs : s.Contains l)
    (hl : l.map (·.1.raw) = List.range s.size) : s.entries = l := by
  obtain ⟨elements, helements⟩ := hs.sound
  have hlength : l.length = s.size := by
    rw [← List.length_map (f := (·.1.raw)), hl, List.length_range]
  have hsize : s.entries.length = l.length := by
    rw [BlockStore.entries, List.length_map, List.length_zipIdx, helements.toList, hlength,
      helements.size]
  apply List.ext_getElem hsize
  intro i hi hi'
  -- The element at a position of the list is found under the handle of the position.
  have hraw : (l.map (·.1.raw))[i]? = (List.range s.size)[i]? := by rw [hl]
  rw [List.getElem?_map, List.getElem?_range (by omega), List.getElem?_eq_getElem hi'] at hraw
  have hhandle : l[i].1 = ⟨i⟩ := congrArg Handle.mk (Option.some.inj hraw)
  have hget := hs.has l[i] (Multiset.mem_coe.2 (List.getElem_mem hi'))
  rw [← helements.sound.mem_entries, hhandle] at hget
  obtain ⟨j, hj, hentry⟩ := List.getElem_of_mem hget
  have hij : j = i := by
    simpa [BlockStore.entries] using congrArg (fun p => p.1.raw) hentry
  subst hij
  rw [hentry]
  exact Prod.ext hhandle.symm rfl

/-- A new element is under the next handle. -/
theorem push (hs : s.Contains m) (a : α) :
    (s.push a).2.Contains ({(⟨s.size⟩, a)} + m) where
  sound := hs.sound.elim fun _ hl => ⟨_, hl.push a⟩
  has := by
    obtain ⟨l, hl⟩ := hs.sound
    intro p hp
    rw [(hl.push a).get?]
    rcases Multiset.mem_add.1 hp with hp | hp
    · rw [Multiset.mem_singleton.1 hp]
      show (l ++ [a])[s.size]? = some a
      rw [hl.size, List.getElem?_append_right (Nat.le_refl _), Nat.sub_self]
      rfl
    · have hget := hs.has p hp
      rw [hl.get?] at hget
      rw [List.getElem?_append_left (List.getElem?_eq_some_iff.1 hget).1]
      exact hget
  handles := by
    rw [push_size, Multiset.range_succ, ← hs.handles, Multiset.singleton_add, Multiset.map_cons]

/-- An element is changed, and no other. -/
theorem modify (hs : s.Contains ({(h, a)} + m)) (f : α → α) :
    (s.modify h f).Contains ({(h, f a)} + m) := by
  obtain ⟨l, hl⟩ := hs.sound
  have hget : s.get? h = some a := has_singleton.1 (has_add.1 hs.has).1
  have hholds := hl.modify f hget
  have hlt : h.raw < l.length := by
    rw [hl.get?] at hget
    exact (List.getElem?_eq_some_iff.1 hget).1
  refine ⟨⟨_, hholds⟩, fun p hp => ?_, ?_⟩
  · rw [hholds.get?]
    rcases Multiset.mem_add.1 hp with hp | hp
    · rw [Multiset.mem_singleton.1 hp]
      exact List.getElem?_set_self hlt
    · -- No other element is under this handle.
      have hnodup : (({(h, a)} + m).map (·.1.raw)).Nodup := by
        rw [hs.handles]
        exact Multiset.nodup_range _
      rw [Multiset.singleton_add, Multiset.map_cons, Multiset.nodup_cons] at hnodup
      have hne : h.raw ≠ p.1.raw := fun heq =>
        hnodup.1 (Multiset.mem_map.2 ⟨p, hp, heq.symm⟩)
      have hp := hs.has p (Multiset.mem_add.2 (.inr hp))
      rw [hl.get?] at hp
      rw [List.getElem?_set_ne hne]
      exact hp
  · rw [modify_size, ← hs.handles]
    simp

end Contains

/-- A store that stands for a list contains its elements. -/
theorem Sound.exists_contains (hs : s.Sound) : ∃ m, s.Contains m := by
  obtain ⟨l, hl⟩ := hs
  refine ⟨(l.zipIdx.map fun p => ((⟨p.2⟩ : Handle), p.1) : List (Handle × α)), ⟨l, hl⟩, ?_, ?_⟩
  · intro p hp
    obtain ⟨⟨a, i⟩, hmem, rfl⟩ := List.mem_map.1 (Multiset.mem_coe.1 hp)
    rw [hl.get?]
    exact List.mk_mem_zipIdx_iff_getElem?.1 hmem
  · rw [Multiset.map_coe, List.map_map]
    show ((l.zipIdx.map Prod.snd : List Nat) : Multiset Nat) = _
    rw [List.zipIdx_map_snd, ← List.range_eq_range', ← hl.size]
    rfl

end ByteBricks.BlockStore
