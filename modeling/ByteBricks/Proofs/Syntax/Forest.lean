import ByteBricks.Proofs.Syntax.Cells
import Mathlib.Data.Multiset.Bind
import Mathlib.Data.Multiset.Pairwise

/-! # Forests of Cells

  A cell refers to the next one of its chain and to its parts. The cells of chains are stored
  so that every cell refers only to cells that nothing else refers to. Such cells are a forest:
  no way along their links comes back to where it began, and no two links lead to one cell.
  Main statements: every walk from a cell to the next ones ends in a forest, and every cell of
  chains is reached from the heads of the chains along exactly one path. -/

namespace ByteBricks.Syntax

open BlockStore (Contains Has)

/-! ### Links -/

/-- The ways in which a cell refers to another one. -/
inductive Link where
  /-- To the next cell of its chain. -/
  | next
  /-- To its first part. -/
  | first
  /-- To its second part. -/
  | second
  deriving DecidableEq, Repr

/-- The cell that a cell refers to. -/
def Cell.target? (c : Cell) : Link → Option Handle
  | .next => c.next
  | .first => c.first
  | .second => c.second

namespace Cells

/-- The cell that the one at a place refers to. -/
def target? (s : Cells) (h : Handle) (link : Link) : Option Handle :=
  (s.get? h).bind (·.target? link)

/-- The cell that a path of links leads to. -/
def follow (s : Cells) (h : Handle) : List Link → Option Handle
  | [] => some h
  | link :: path => (s.target? h link).bind (s.follow · path)

/-- The cells of a part of the store refer to each other as in a forest. -/
structure IsForestOn (s : Cells) (part : Set Handle) : Prop where
  /-- Their links lead to cells of the part. -/
  within {h h' : Handle} {link : Link} : h ∈ part → s.target? h link = some h' → h' ∈ part
  /-- No two links lead to one cell. -/
  once {h₁ h₂ h : Handle} {link₁ link₂ : Link} : h₁ ∈ part → h₂ ∈ part →
    s.target? h₁ link₁ = some h → s.target? h₂ link₂ = some h → h₁ = h₂ ∧ link₁ = link₂
  /-- No path leads back to where it began. -/
  acyclic {h : Handle} {path : List Link} : h ∈ part → s.follow h path = some h → path = []

/-- The places of all cells. -/
def places (s : Cells) : Set Handle := {h | h.raw < s.size}

/-- The cells refer to each other as in a forest. -/
def IsForest (s : Cells) : Prop := s.IsForestOn s.places

/-- The cells that are met on the way from one to the next. The last one has none behind it. -/
inductive Walks (s : Cells) : Option Handle → List (Handle × Cell) → Prop
  /-- There is no cell to begin with. -/
  | done : Walks s none []
  /-- One cell and those behind it. -/
  | step {h : Handle} {c : Cell} {rest : List (Handle × Cell)} :
    s.get? h = some c → Walks s c.next rest → Walks s (some h) ((h, c) :: rest)

variable {s t : Cells} {part part' : Set Handle} {h h' : Handle} {c : Cell}
  {link : Link} {path path' : List Link}

theorem target?_eq_some_iff :
    s.target? h link = some h' ↔ ∃ c, s.get? h = some c ∧ c.target? link = some h' :=
  Option.bind_eq_some_iff

theorem follow_cons : s.follow h (link :: path) = (s.target? h link).bind (s.follow · path) := rfl

theorem follow_cons_eq_some_iff : s.follow h (link :: path) = some h' ↔
    ∃ u, s.target? h link = some u ∧ s.follow u path = some h' :=
  Option.bind_eq_some_iff

theorem follow_append (path path' : List Link) :
    s.follow h (path ++ path') = (s.follow h path).bind (s.follow · path') := by
  induction path generalizing h with
  | nil => rfl
  | cons link path ih => simp only [List.cons_append, follow_cons, ih, Option.bind_assoc]

theorem follow_concat_eq_some_iff : s.follow h (path ++ [link]) = some h' ↔
    ∃ u, s.follow h path = some u ∧ s.target? u link = some h' := by
  rw [follow_append, Option.bind_eq_some_iff]
  simp only [follow, Option.bind_fun_some]

theorem lt_size_of_get? (hget : s.get? h = some c) : h ∈ s.places := by
  unfold BlockStore.get? at hget
  split at hget
  · next hlt => exact hlt
  · cases hget

/-- Every place has a cell. -/
theorem exists_get? (hs : s.Sound) (hh : h ∈ s.places) : ∃ c, s.get? h = some c := by
  obtain ⟨l, hl⟩ := hs
  rw [hl.get?]
  have hlt : h.raw < l.length := hl.size ▸ hh
  exact ⟨_, List.getElem?_eq_getElem hlt⟩

/-- A path does not leave a part that no link leaves. -/
theorem follow_mem (hwithin : ∀ {h h' link}, h ∈ part → s.target? h link = some h' → h' ∈ part)
    (hh : h ∈ part) (hpath : s.follow h path = some h') : h' ∈ part := by
  induction path generalizing h with
  | nil => exact Option.some.inj hpath ▸ hh
  | cons link path ih =>
    obtain ⟨u, hu, hpath⟩ := follow_cons_eq_some_iff.1 hpath
    exact ih (hwithin hh hu) hpath

namespace IsForestOn

/-- A part is a forest wherever its cells are stored. -/
theorem congr (hs : s.IsForestOn part) (hget : ∀ h ∈ part, t.get? h = s.get? h) :
    t.IsForestOn part := by
  have htarget {h : Handle} (link : Link) (hh : h ∈ part) :
      t.target? h link = s.target? h link := by
    unfold target?
    rw [hget h hh]
  have hfollow {h : Handle} (path : List Link) (hh : h ∈ part) :
      t.follow h path = s.follow h path := by
    induction path generalizing h with
    | nil => rfl
    | cons link path ih =>
      rw [follow_cons, follow_cons, htarget link hh]
      cases hu : s.target? h link with
      | none => rfl
      | some u => exact ih (hs.within hh hu)
  constructor
  · intro h h' link hh hlink
    rw [htarget link hh] at hlink
    exact hs.within hh hlink
  · intro h₁ h₂ h link₁ link₂ hh₁ hh₂ hlink₁ hlink₂
    rw [htarget _ hh₁] at hlink₁
    rw [htarget _ hh₂] at hlink₂
    exact hs.once hh₁ hh₂ hlink₁ hlink₂
  · intro h path hh hpath
    rw [hfollow path hh] at hpath
    exact hs.acyclic hh hpath

/-- Two forests side by side are one forest. -/
theorem union (hs : s.IsForestOn part) (hs' : s.IsForestOn part')
    (hdisjoint : ∀ h ∈ part, h ∉ part') :
    s.IsForestOn (part ∪ part') := by
  constructor
  · rintro h h' link (hh | hh) hlink
    · exact .inl (hs.within hh hlink)
    · exact .inr (hs'.within hh hlink)
  · -- Cells of different forests refer to different cells.
    rintro h₁ h₂ h link₁ link₂ (hh₁ | hh₁) (hh₂ | hh₂) hlink₁ hlink₂
    · exact hs.once hh₁ hh₂ hlink₁ hlink₂
    · exact absurd (hs'.within hh₂ hlink₂) (hdisjoint h (hs.within hh₁ hlink₁))
    · exact absurd (hs'.within hh₁ hlink₁) (hdisjoint h (hs.within hh₂ hlink₂))
    · exact hs'.once hh₁ hh₂ hlink₁ hlink₂
  · rintro h path (hh | hh) hpath
    · exact hs.acyclic hh hpath
    · exact hs'.acyclic hh hpath

/-- A cell is reached in only one way from cells that nothing refers to. -/
theorem path_unique (hs : s.IsForestOn part) {r r' : Handle} (hr : r ∈ part) (hr' : r' ∈ part)
    (hroot : ∀ u ∈ part, ∀ link, s.target? u link ≠ some r)
    (hroot' : ∀ u ∈ part, ∀ link, s.target? u link ≠ some r')
    (hpath : s.follow r path = some h) (hpath' : s.follow r' path' = some h) :
    r = r' ∧ path = path' := by
  induction path using List.reverseRecOn generalizing h path' with
  | nil =>
    cases hpath
    rcases List.eq_nil_or_concat path' with rfl | ⟨path', link', rfl⟩
    · exact ⟨(Option.some.inj hpath').symm, rfl⟩
    · rw [List.concat_eq_append] at hpath'
      obtain ⟨u, hu, hlink⟩ := follow_concat_eq_some_iff.1 hpath'
      exact absurd hlink (hroot u (follow_mem hs.within hr' hu) link')
  | append_singleton path link ih =>
    obtain ⟨u, hu, hlink⟩ := follow_concat_eq_some_iff.1 hpath
    rcases List.eq_nil_or_concat path' with rfl | ⟨path', link', rfl⟩
    · cases hpath'
      exact absurd hlink (hroot' u (follow_mem hs.within hr hu) link)
    · rw [List.concat_eq_append] at hpath' ⊢
      obtain ⟨u', hu', hlink'⟩ := follow_concat_eq_some_iff.1 hpath'
      obtain ⟨rfl, rfl⟩ := hs.once (follow_mem hs.within hr hu) (follow_mem hs.within hr' hu')
        hlink hlink'
      obtain ⟨hrr', rfl⟩ := ih hu hu'
      exact ⟨hrr', rfl⟩

end IsForestOn

/-! ### Walks -/

theorem walk_none (s : Cells) (limit : Nat) : s.walk limit none = [] := by
  cases limit <;> rfl

theorem walk_succ (hget : s.get? h = some c) (limit : Nat) :
    s.walk (limit + 1) (some h) = (h, c) :: s.walk limit c.next := by
  rw [walk, hget]

/-- A walk that ends is not cut off by a limit that is large enough. -/
theorem Walks.walk_eq {head : Option Handle} {l : List (Handle × Cell)} (hl : s.Walks head l)
    {limit : Nat} (hlimit : l.length ≤ limit) : s.walk limit head = l := by
  induction hl generalizing limit with
  | done => exact walk_none s limit
  | step hget _ ih =>
    rw [List.length_cons] at hlimit
    obtain ⟨limit, rfl⟩ : ∃ n, limit = n + 1 := ⟨limit - 1, by omega⟩
    rw [walk_succ hget, ih (by omega)]

/-- The cells of a walk are reached along their chain. -/
theorem exists_follow_of_mem_walk {limit : Nat} {p : Handle × Cell}
    (hp : p ∈ s.walk limit (some h)) :
    s.get? p.1 = some p.2 ∧ ∃ k, s.follow h (List.replicate k .next) = some p.1 := by
  induction limit generalizing h with
  | zero => cases hp
  | succ limit ih =>
    cases hget : s.get? h with
    | none =>
      rw [walk, hget] at hp
      cases hp
    | some c =>
      rw [walk_succ hget] at hp
      rcases List.mem_cons.1 hp with rfl | hp
      · exact ⟨hget, 0, rfl⟩
      · cases hnext : c.next with
        | none =>
          rw [hnext, walk_none] at hp
          cases hp
        | some u =>
          rw [hnext] at hp
          obtain ⟨hgetp, k, hk⟩ := ih hp
          have hlink : s.target? h .next = some u := target?_eq_some_iff.2 ⟨c, hget, hnext⟩
          exact ⟨hgetp, k + 1, follow_cons_eq_some_iff.2 ⟨u, hlink, hk⟩⟩

/-- A walk in a forest meets no cell twice. -/
theorem IsForestOn.nodup_walk (hs : s.IsForestOn part) (limit : Nat) (hh : h ∈ part) :
    ((s.walk limit (some h)).map Prod.fst).Nodup := by
  induction limit generalizing h with
  | zero => exact List.nodup_nil
  | succ limit ih =>
    cases hget : s.get? h with
    | none =>
      rw [walk, hget]
      exact List.nodup_nil
    | some c =>
      rw [walk_succ hget, List.map_cons, List.nodup_cons]
      cases hnext : c.next with
      | none => simp [walk_none]
      | some u =>
        have hlink : s.target? h .next = some u := target?_eq_some_iff.2 ⟨c, hget, hnext⟩
        refine ⟨fun hmem => ?_, ih (hs.within hh hlink)⟩
        obtain ⟨p, hp, rfl⟩ := List.mem_map.1 hmem
        obtain ⟨-, k, hk⟩ := exists_follow_of_mem_walk hp
        -- The cell would be reached from itself.
        have hnil := hs.acyclic hh (follow_cons_eq_some_iff.2 ⟨u, hlink, hk⟩)
        cases hnil

/-- A walk in a forest meets no more cells than there are. -/
theorem IsForest.length_walk_le (hs : s.IsForest) (limit : Nat) (hh : h ∈ s.places) :
    (s.walk limit (some h)).length ≤ s.size := by
  have hnodup : ((s.walk limit (some h)).map (·.1.raw)).Nodup := by
    have hmap := (hs.nodup_walk limit hh).map (f := Handle.raw) fun a b hab => by
      cases a
      cases b
      cases hab
      rfl
    rwa [List.map_map] at hmap
  have hsub : (s.walk limit (some h)).map (·.1.raw) ⊆ List.range s.size := by
    intro raw hraw
    obtain ⟨p, hp, rfl⟩ := List.mem_map.1 hraw
    exact List.mem_range.2 (lt_size_of_get? (exists_follow_of_mem_walk hp).1)
  simpa using (List.subperm_of_subset hnodup hsub).length_le

/-- A walk ends, unless it is cut off by its limit. -/
theorem walks_or_length (hs : s.IsForestOn part) (hcells : ∀ h ∈ part, ∃ c, s.get? h = some c)
    (limit : Nat) (hh : h ∈ part) :
    s.Walks (some h) (s.walk limit (some h)) ∨ (s.walk limit (some h)).length = limit := by
  induction limit generalizing h with
  | zero => exact .inr rfl
  | succ limit ih =>
    obtain ⟨c, hget⟩ := hcells h hh
    rw [walk_succ hget, List.length_cons]
    cases hnext : c.next with
    | none =>
      rw [walk_none]
      exact .inl (.step hget (hnext ▸ .done))
    | some u =>
      have hlink : s.target? h .next = some u := target?_eq_some_iff.2 ⟨c, hget, hnext⟩
      refine (ih (hs.within hh hlink)).imp (fun hwalks => ?_) (congrArg (· + 1))
      exact .step hget (hnext ▸ hwalks)

/-- **Main theorem.** In a forest, every walk from a cell to the next ones comes to an end, and the
    chain that begins with the cell is what it meets. -/
theorem IsForest.walks_chain (hs : s.IsForest) (hsound : s.Sound) (hh : h ∈ s.places) :
    s.Walks (some h) (s.chain (some h)) := by
  -- With one step more than there are cells, the limit is not reached.
  have hlength := hs.length_walk_le (s.size + 1) hh
  rcases walks_or_length hs (fun _ => exists_get? hsound) (s.size + 1) hh with hwalks | heq
  · have hchain : s.chain (some h) = _ := hwalks.walk_eq hlength
    rw [hchain]
    exact hwalks
  · omega

end Cells

/-! ### Roots -/

/-- The handle, if there is one. -/
def optional (h : Option Handle) : Multiset Handle := (h.toList : Multiset Handle)

@[simp] theorem optional_none : optional none = 0 := rfl

@[simp] theorem optional_some (h : Handle) : optional (some h) = {h} := rfl

namespace Cell

/-- The cells that a cell refers to. -/
def targets (c : Cell) : Multiset Handle :=
  optional c.next + (optional c.first + optional c.second)

@[simp] theorem targets_plain (t : Token) (kind : Kind) : (plain t kind).targets = 0 := rfl

variable {c : Cell} {h : Handle} {link link' : Link}

theorem mem_targets_of_target? (hlink : c.target? link = some h) : h ∈ c.targets := by
  cases link <;> simp_all [targets, target?]

/-- A cell that refers to no other cell twice has one link to each. -/
theorem target?_inj (hnodup : c.targets.Nodup) (hlink : c.target? link = some h)
    (hlink' : c.target? link' = some h) : link = link' := by
  cases link <;> cases link' <;> simp_all [targets, target?]

theorem exists_target?_of_mem_targets (hh : h ∈ c.targets) : ∃ link, c.target? link = some h := by
  simp only [targets, optional, Multiset.mem_add, Multiset.mem_coe, Option.mem_toList] at hh
  rcases hh with hnext | hfirst | hsecond
  · exact ⟨.next, hnext⟩
  · exact ⟨.first, hfirst⟩
  · exact ⟨.second, hsecond⟩

end Cell

/-- What the cell of a tree refers to besides the next cell. -/
theorem Node.targets_cell (n : Node) (next : Option Handle) :
    (n.cell next).targets = optional next + (n.cell none).targets := by
  cases n <;> simp [Node.cell, Cell.targets]

/-- What the cell of an item refers to besides the next cell. -/
theorem Item.targets_cell (item : Item) (next : Option Handle) :
    (item.cell next).targets = optional next + (item.cell none).targets := by
  cases item with
  | tree n => exact n.targets_cell next
  | operator o op | subscript o index => simp [Item.cell, Cell.targets]

/-- The layout is made cell by cell. Each new cell is a root, and refers to former roots, which
    are none any more. -/
inductive Rooted : Layout → Multiset Handle → Prop
  /-- There are no cells. -/
  | empty : Rooted 0 0
  /-- There is one more cell. -/
  | cell {m : Layout} {roots : Multiset Handle} {h : Handle} {c : Cell} :
    Rooted m (c.targets + roots) → Rooted ({(h, c)} + m) ({h} + roots)

namespace Rooted

variable {m m' : Layout} {roots roots' : Multiset Handle} {h : Handle} {c : Cell}

theorem of_eq (hr : Rooted m roots) (hm : m' = m) (hroots : roots' = roots) : Rooted m' roots' :=
  hm ▸ hroots ▸ hr

theorem add (hr : Rooted m roots) (hr' : Rooted m' roots') : Rooted (m + m') (roots + roots') := by
  induction hr with
  | empty => simpa using hr'
  | cell _ ih =>
    rw [add_assoc, add_assoc]
    exact .cell (by rwa [← add_assoc])

/-- A cell that refers to nothing. -/
theorem plain (hr : Rooted m roots) (t : Token) (kind : Cell.Kind) :
    Rooted ({(h, .plain t kind)} + m) ({h} + roots) :=
  .cell (by rwa [Cell.targets_plain, zero_add])

mutual

/-- The parts of a tree are stored. -/
theorem parts (n : Node) {m : Layout} {roots : Multiset Handle} (hr : Rooted m roots) :
    Rooted (n.parts + m) ((n.cell none).targets + roots) := by
  cases n with
  | name o | integer o | control o word | scriptEnd o =>
    rw [Node.parts, zero_add]
    exact hr.of_eq rfl (zero_add _)
  | structHead o name =>
    rw [Node.parts]
    exact hr.plain name.token .name
  | paren o inner =>
    rw [Node.parts]
    refine (chained inner hr).of_eq rfl ?_
    simp [Node.cell, Cell.targets]
  | block o body =>
    rw [Node.parts]
    refine (chained body hr).of_eq rfl ?_
    simp [Node.cell, Cell.targets]
  | element o base index =>
    have hbase := Rooted.cell (h := base.handle) (parts base (chained index hr))
    rw [Node.parts]
    refine hbase.of_eq (by ac_rfl) ?_
    simp [Node.cell, Cell.targets]
  | binary o op lhs rhs =>
    have hrhs := Rooted.cell (h := rhs.handle) (parts rhs hr)
    have hlhs := Rooted.cell (h := lhs.handle) (parts lhs hrhs)
    rw [Node.parts]
    refine hlhs.of_eq (by ac_rfl) ?_
    show optional none + ({lhs.handle} + {rhs.handle}) + roots = _
    rw [optional_none, zero_add, add_assoc]

/-- A chain of trees is stored. -/
theorem chained (nodes : List Node) {m : Layout} {roots : Multiset Handle} (hr : Rooted m roots) :
    Rooted (Node.chained nodes + m) (optional (Node.headOf nodes) + roots) := by
  cases nodes with
  | nil =>
    rw [Node.chained, zero_add]
    exact hr.of_eq rfl (zero_add _)
  | cons n rest =>
    have hroots : (n.cell (Node.headOf rest)).targets + roots =
        (n.cell none).targets + (optional (Node.headOf rest) + roots) := by
      rw [n.targets_cell]
      ac_rfl
    have hn := (parts n (chained rest hr)).of_eq rfl hroots
    rw [Node.chained]
    exact (Rooted.cell (h := n.handle) hn).of_eq (by ac_rfl) rfl

end

/-- The parts of an item are stored. -/
theorem itemParts (item : Item) (hr : Rooted m roots) :
    Rooted (item.parts + m) ((item.cell none).targets + roots) := by
  cases item with
  | tree n => exact hr.parts n
  | operator o op => simpa [Item.cell, Cell.targets] using hr
  | subscript o index =>
    refine (hr.chained index).of_eq rfl ?_
    simp [Item.cell, Cell.targets]

/-- A chain of items is stored. -/
theorem chainedItems (items : List Item) (hr : Rooted m roots) :
    Rooted (Item.chained none items + m) (optional (Item.headOr none items) + roots) := by
  induction items with
  | nil =>
    rw [Item.chained, zero_add]
    exact hr.of_eq rfl (zero_add _)
  | cons item rest ih =>
    have hroots : (item.cell (Item.headOr none rest)).targets + roots =
        (item.cell none).targets + (optional (Item.headOr none rest) + roots) := by
      rw [item.targets_cell]
      ac_rfl
    have hitem := (ih.itemParts item).of_eq rfl hroots
    rw [Item.chained]
    exact (Rooted.cell (h := item.handle) hitem).of_eq (by ac_rfl) rfl

/-! ### Layouts as Forests -/

/-- Every cell is a root or is referred to once. -/
theorem handles_eq (hr : Rooted m roots) :
    (m.bind fun p => p.2.targets) + roots = m.map Prod.fst := by
  induction hr with
  | empty => rfl
  | @cell m roots h c _ ih =>
    rw [Multiset.add_bind, Multiset.singleton_bind, Multiset.map_add, Multiset.map_singleton, ← ih]
    ac_rfl

variable {s : Cells} {u : Handle} {link link' : Link}

/-- What is known of the cells that a layout shows. -/
theorem target?_iff (hs : s.Has m) (hu : u ∈ m.map Prod.fst) :
    s.target? u link = some h ↔ ∃ c, (u, c) ∈ m ∧ c.target? link = some h := by
  obtain ⟨⟨u, c⟩, hmem, rfl⟩ := Multiset.mem_map.1 hu
  have hget : s.get? u = some c := hs _ hmem
  rw [Cells.target?_eq_some_iff]
  constructor
  · rintro ⟨d, hd, hlink⟩
    rw [hget] at hd
    cases hd
    exact ⟨c, hmem, hlink⟩
  · rintro ⟨d, hd, hlink⟩
    exact ⟨d, hs _ hd, hlink⟩

theorem mem_bind_targets (hs : s.Has m) (hu : u ∈ m.map Prod.fst)
    (hlink : s.target? u link = some h) : h ∈ m.bind fun p => p.2.targets := by
  obtain ⟨c, hc, htarget⟩ := (target?_iff hs hu).1 hlink
  exact Multiset.mem_bind.2 ⟨(u, c), hc, Cell.mem_targets_of_target? htarget⟩

theorem within (hr : Rooted m roots) (hs : s.Has m) (hu : u ∈ m.map Prod.fst)
    (hlink : s.target? u link = some h) : h ∈ m.map Prod.fst := by
  rw [← hr.handles_eq]
  exact Multiset.mem_add.2 (.inl (mem_bind_targets hs hu hlink))

/-- Nothing refers to a root. -/
theorem target?_ne_root (hr : Rooted m roots) (hs : s.Has m) (hnodup : (m.map Prod.fst).Nodup)
    (hroot : h ∈ roots) (hu : u ∈ m.map Prod.fst) : s.target? u link ≠ some h := by
  intro hlink
  rw [← hr.handles_eq] at hnodup
  exact (Multiset.disjoint_left.1 (Multiset.nodup_add.1 hnodup).2.2)
    (mem_bind_targets hs hu hlink) hroot

theorem once (hr : Rooted m roots) (hs : s.Has m) (hnodup : (m.map Prod.fst).Nodup) {u' : Handle}
    (hu : u ∈ m.map Prod.fst) (hu' : u' ∈ m.map Prod.fst) (hlink : s.target? u link = some h)
    (hlink' : s.target? u' link' = some h) : u = u' ∧ link = link' := by
  obtain ⟨c, hc, htarget⟩ := (target?_iff hs hu).1 hlink
  obtain ⟨c', hc', htarget'⟩ := (target?_iff hs hu').1 hlink'
  rw [← hr.handles_eq] at hnodup
  obtain ⟨hone, hpairwise⟩ := Multiset.nodup_bind.1 (Multiset.nodup_add.1 hnodup).1
  -- Different cells refer to different ones.
  have heq : (u, c) = (u', c') := by
    by_contra hne
    have hdisjoint := hpairwise.forall hc hc' hne
    exact Multiset.disjoint_left.1 hdisjoint (Cell.mem_targets_of_target? htarget)
      (Cell.mem_targets_of_target? htarget')
  cases heq
  exact ⟨rfl, Cell.target?_inj (hone _ hc) htarget htarget'⟩

theorem mem_handles_of_root (hr : Rooted m roots) (hroot : h ∈ roots) : h ∈ m.map Prod.fst := by
  rw [← hr.handles_eq]
  exact Multiset.mem_add.2 (.inr hroot)

theorem acyclic (hr : Rooted m roots) (hs : s.Has m) (hnodup : (m.map Prod.fst).Nodup)
    {path : List Link} (hu : u ∈ m.map Prod.fst) (hpath : s.follow u path = some u) :
    path = [] := by
  induction hr with
  | empty => cases hu
  | @cell m roots h c hr ih =>
    rw [BlockStore.has_add] at hs
    rw [Multiset.map_add, Multiset.map_singleton] at hu hnodup
    obtain ⟨-, hnodup, hdisjoint⟩ := Multiset.nodup_add.1 hnodup
    rcases Multiset.mem_add.1 hu with hu | hu
    · cases path with
      | nil => rfl
      | cons link path =>
        -- The new cell refers to old ones, from which no path leads to it.
        obtain rfl := Multiset.mem_singleton.1 hu
        obtain ⟨v, hlink, hpath⟩ := Cells.follow_cons_eq_some_iff.1 hpath
        obtain ⟨d, hget, htarget⟩ := Cells.target?_eq_some_iff.1 hlink
        rw [BlockStore.has_singleton.1 hs.1] at hget
        cases hget
        have hv := hr.mem_handles_of_root
          (Multiset.mem_add.2 (.inl (Cell.mem_targets_of_target? htarget)))
        have hback : u ∈ {h | h ∈ m.map Prod.fst} := Cells.follow_mem (hr.within hs.2) hv hpath
        exact absurd hback (Multiset.disjoint_left.1 hdisjoint hu)
    · exact ih hs.2 hnodup hu

/-- A stored layout is a forest. -/
theorem isForestOn (hr : Rooted m roots) (hs : s.Has m) (hnodup : (m.map Prod.fst).Nodup) :
    s.IsForestOn {h | h ∈ m.map Prod.fst} where
  within := hr.within hs
  once := hr.once hs hnodup
  acyclic := hr.acyclic hs hnodup

/-- Every cell is reached from a root. -/
theorem exists_path (hr : Rooted m roots) (hs : s.Has m) (hu : u ∈ m.map Prod.fst) :
    ∃ r ∈ roots, ∃ path, s.follow r path = some u := by
  induction hr with
  | empty => cases hu
  | @cell m roots h c _ ih =>
    rw [BlockStore.has_add] at hs
    rw [Multiset.map_add, Multiset.map_singleton] at hu
    rcases Multiset.mem_add.1 hu with hu | hu
    · obtain rfl := Multiset.mem_singleton.1 hu
      exact ⟨u, Multiset.mem_add.2 (.inl hu), [], rfl⟩
    · obtain ⟨r, hroot, path, hpath⟩ := ih hs.2 hu
      rcases Multiset.mem_add.1 hroot with htarget | hroot
      · -- The way begins at the new cell instead.
        obtain ⟨link, hlink⟩ := Cell.exists_target?_of_mem_targets htarget
        have hfirst : s.target? h link = some r :=
          Cells.target?_eq_some_iff.2 ⟨c, BlockStore.has_singleton.1 hs.1, hlink⟩
        exact ⟨h, by simp, link :: path, Cells.follow_cons_eq_some_iff.2 ⟨r, hfirst, hpath⟩⟩
      · exact ⟨r, Multiset.mem_add.2 (.inr hroot), path, hpath⟩

/-- **Main theorem.** Every cell of chains is reached from their heads along exactly one path. -/
theorem existsUnique_path {heads : List Handle} (hr : Rooted m heads) (hs : s.Has m)
    (hnodup : (m.map Prod.fst).Nodup) (hu : u ∈ m.map Prod.fst) :
    ∃! p : Nat × List Link, heads[p.1]?.bind (s.follow · p.2) = some u := by
  have hheads : heads.Nodup := by
    rw [← hr.handles_eq] at hnodup
    exact Multiset.coe_nodup.1 (Multiset.nodup_add.1 hnodup).2.1
  have hroot {r : Handle} {i : Nat} (hi : heads[i]? = some r) : r ∈ (heads : Multiset Handle) :=
    Multiset.mem_coe.2 (List.mem_of_getElem? hi)
  obtain ⟨r, hr', path, hpath⟩ := hr.exists_path hs hu
  obtain ⟨i, hi⟩ := List.mem_iff_getElem?.1 (Multiset.mem_coe.1 hr')
  refine ⟨(i, path), Option.bind_eq_some_iff.2 ⟨r, hi, hpath⟩, ?_⟩
  rintro ⟨j, path'⟩ hp
  obtain ⟨r', hj, hpath'⟩ := Option.bind_eq_some_iff.1 hp
  dsimp only at hj hpath'
  obtain ⟨rfl, rfl⟩ := (hr.isForestOn hs hnodup).path_unique
    (hr.mem_handles_of_root (hroot hj)) (hr.mem_handles_of_root hr')
    (fun v hv link => hr.target?_ne_root hs hnodup (hroot hj) hv)
    (fun v hv link => hr.target?_ne_root hs hnodup hr' hv) hpath' hpath
  have hlt : i < heads.length := (List.getElem?_eq_some_iff.1 hi).1
  rw [(List.getElem?_inj hlt hheads).1 (hi.trans hj.symm)]

end Rooted

/-! ### Stores -/

namespace Cells

variable {s t : Cells} {m base : Layout} {roots : Multiset Handle} {h : Handle}

theorem nodup_handles (hs : s.Contains m) : (m.map Prod.fst).Nodup := by
  apply Multiset.Nodup.of_map Handle.raw
  rw [Multiset.map_map]
  show (m.map (·.1.raw)).Nodup
  rw [hs.handles]
  exact Multiset.nodup_range _

theorem mem_handles_iff (hs : s.Contains m) : h ∈ m.map Prod.fst ↔ h ∈ s.places := by
  constructor
  · intro hh
    obtain ⟨p, hp, rfl⟩ := Multiset.mem_map.1 hh
    exact lt_size_of_get? (hs.has p hp)
  · intro hh
    have hraw : h.raw ∈ m.map (·.1.raw) := by
      rw [hs.handles]
      exact Multiset.mem_range.2 hh
    obtain ⟨⟨⟨raw⟩, c⟩, hp, rfl⟩ := Multiset.mem_map.1 hraw
    exact Multiset.mem_map_of_mem Prod.fst hp

/-- Chains that are stored beside the cells of a forest make a forest with them. -/
theorem isForest_of_contains (ht : t.Contains base) (hforest : t.IsForest)
    (hs : s.Contains (m + base)) (hr : Rooted m roots) : s.IsForest := by
  obtain ⟨hm, hbase⟩ := BlockStore.has_add.1 hs.has
  have hnodup := nodup_handles hs
  rw [Multiset.map_add, Multiset.nodup_add] at hnodup
  have hold : s.IsForestOn t.places := by
    refine hforest.congr fun h hh => ?_
    obtain ⟨p, hp, rfl⟩ := Multiset.mem_map.1 ((mem_handles_iff ht).2 hh)
    rw [hbase p hp, ht.has p hp]
  have hnew := hr.isForestOn hm hnodup.1
  have hplaces : s.places = {h | h ∈ m.map Prod.fst} ∪ t.places := by
    ext h
    rw [← mem_handles_iff hs, Multiset.map_add, Multiset.mem_add, mem_handles_iff ht]
    rfl
  unfold IsForest
  rw [hplaces]
  refine hnew.union hold fun h hh hbase => ?_
  exact Multiset.disjoint_left.1 hnodup.2.2 hh ((mem_handles_iff ht).2 hbase)

end Cells

end ByteBricks.Syntax
