import ByteBricks.Proofs.Syntax.Reading
import Mathlib.Algebra.GroupWithZero.Nat

/-! # The Names in Trees

  The reader makes at most one tree from each name. So what the names of a source weigh
  together is an upper bound for what those in its trees weigh, however single names are
  weighed. -/

namespace ByteBricks.Syntax

variable (w : Token → Nat)

/-! ### Weights -/

mutual

/-- What the names in a tree weigh together. -/
def Node.weight : Node → Nat
  | .name o => w o.token
  | .structHead _ n => w n.token
  | .integer _ | .control _ _ | .scriptEnd _ => 0
  | .paren _ inner => Node.weightAll inner
  | .block _ body => Node.weightAll body
  | .element _ base index => base.weight + Node.weightAll index
  | .binary _ _ lhs rhs => lhs.weight + rhs.weight

/-- What the names in trees weigh together. -/
def Node.weightAll : List Node → Nat
  | [] => 0
  | n :: rest => n.weight + Node.weightAll rest

end

/-- What the names in an item weigh together. -/
def Item.weight : Item → Nat
  | .tree n => n.weight w
  | .operator _ _ => 0
  | .subscript _ index => Node.weightAll w index

/-- What the names in items weigh together. -/
def Item.weightAll (items : List Item) : Nat := (items.map (Item.weight w)).sum

/-- What the names in and around an open delimiter weigh together. -/
def Frame.weight (f : Frame) : Nat := Item.weightAll w f.outer + Node.weightAll w f.body

/-- What the names in all trees of the reader weigh together. -/
def Reader.weight (r : Reader) : Nat :=
  (r.frames.map (Frame.weight w)).sum + Item.weightAll w r.chain +
    (r.statements.map (Node.weightAll w)).sum

/-- What a token weighs: only names count. -/
def tokenWeight (t : Token) : Nat := if t.kind = .name then w t else 0

variable {w}

theorem Node.weightAll_eq_sum (ns : List Node) :
    Node.weightAll w ns = (ns.map (Node.weight w)).sum := by
  induction ns with
  | nil => rfl
  | cons n ns ih => rw [Node.weightAll, ih, List.map_cons, List.sum_cons]

@[simp] theorem Node.weightAll_append (a b : List Node) :
    Node.weightAll w (a ++ b) = Node.weightAll w a + Node.weightAll w b := by
  simp [Node.weightAll_eq_sum]

@[simp] theorem Node.weightAll_reverse (ns : List Node) :
    Node.weightAll w ns.reverse = Node.weightAll w ns := by
  simp [Node.weightAll_eq_sum]

@[simp] theorem Item.weightAll_nil : Item.weightAll w [] = 0 := rfl

@[simp] theorem Item.weightAll_cons (item : Item) (items : List Item) :
    Item.weightAll w (item :: items) = item.weight w + Item.weightAll w items := by
  simp [Item.weightAll]

@[simp] theorem Item.weightAll_reverse (items : List Item) :
    Item.weightAll w items.reverse = Item.weightAll w items := by
  simp [Item.weightAll]

/-! ### Chains -/

theorem weight_of_resolveLevel {level : Nat} {before items out : List Item}
    (h : resolveLevel level before items = .ok out) :
    Item.weightAll w out = Item.weightAll w before + Item.weightAll w items := by
  fun_induction resolveLevel level before items generalizing out with
  | case1 before =>
    cases h
    simp
  | case2 before n after ih =>
    have := ih h
    simp only [Item.weightAll_cons, Item.weight] at this ⊢
    omega
  | case3 o index after hlevel base before hbase ih =>
    have := ih h
    simp only [Item.weightAll_cons, Item.weight, Node.weight] at this ⊢
    omega
  | case6 before o index after hlevel ih =>
    have := ih h
    simp only [Item.weightAll_cons, Item.weight] at this ⊢
    omega
  | case7 o op rhs after hlevel base before hoperands ih =>
    have := ih h
    simp only [Item.weightAll_cons, Item.weight, Node.weight] at this ⊢
    omega
  | case10 before o op rhs after hlevel ih =>
    have := ih h
    simp only [Item.weightAll_cons, Item.weight] at this ⊢
    omega
  | case12 before o op after htree hlevel ih =>
    have := ih h
    simp only [Item.weightAll_cons, Item.weight] at this ⊢
    omega
  | case4 | case5 | case8 | case9 | case11 => simp at h

/-- Resolving a chain keeps the names of its trees. -/
theorem weight_of_resolve {items : List Item} {nodes : List Node} (h : resolve items = .ok nodes) :
    Node.weightAll w nodes = Item.weightAll w items := by
  have htrees (nodes : List Node) :
      Item.weightAll w (nodes.map .tree) = Node.weightAll w nodes := by
    induction nodes with
    | nil => rfl
    | cons n nodes ih => rw [List.map_cons, Item.weightAll_cons, Item.weight, ih, Node.weightAll]
  have hlevel {level : Nat} {items next out : List Item}
      (h : resolveLevel level [] items = .ok next)
      (ih : Item.weightAll w out = Item.weightAll w next) :
      Item.weightAll w out = Item.weightAll w items := by
    rw [ih, weight_of_resolveLevel h, Item.weightAll_nil, Nat.zero_add]
  rw [← htrees]
  exact resolve_induction (R := fun items out => Item.weightAll w out = Item.weightAll w items)
    (fun _ => rfl) hlevel h

/-! ### Reading -/

namespace Reader

variable {r r' : Reader} {t : Token}

theorem weight_push (item : Item) : (r.push item).weight w = r.weight w + item.weight w := by
  simp only [weight, push, Item.weightAll_cons]
  omega

theorem weight_leave (outer : List Item) (frames : List Frame) (item : Item) :
    (r.leave outer frames item).weight w = (frames.map (Frame.weight w)).sum +
      Item.weightAll w outer + (r.statements.map (Node.weightAll w)).sum + item.weight w := by
  unfold leave
  rw [weight_push]
  rfl

theorem weight_of_endStatement {line : Nat} (h : r.endStatement line = .ok r') :
    r'.weight w ≤ r.weight w := by
  unfold endStatement at h
  obtain ⟨nodes, hnodes, h⟩ := bind_eq_ok.1 h
  have hle := weight_of_resolve (w := w) (resolveChain_eq_ok.1 hnodes)
  rw [Item.weightAll_reverse] at hle
  obtain ⟨frames, chain, statements, count, pending⟩ := r
  cases frames with
  | nil =>
    cases h
    simp only [weight, List.map_cons, List.sum_cons, Item.weightAll_nil] at *
    omega
  | cons frame frames =>
    cases h
    simp only [weight, List.map_cons, List.sum_cons, Item.weightAll_nil, Frame.weight,
      Node.weightAll_append, Node.weightAll_reverse] at *
    omega

theorem weight_of_endChain (h : r.endChain t = .ok r') : r'.weight w ≤ r.weight w := by
  obtain ⟨-, h⟩ := endChain_eq_ok_iff.1 h
  rcases hr : r.frames with _ | ⟨⟨bracket, opener, outer, body⟩, frames⟩
  · rw [hr] at h
    exact weight_of_endStatement h
  rw [hr] at h
  cases bracket with
  | brace => exact weight_of_endStatement h
  | paren | square =>
    obtain ⟨nodes, hnodes, rfl⟩ := h
    have hle := weight_of_resolve (w := w) (resolveChain_eq_ok.1 hnodes)
    rw [Item.weightAll_reverse] at hle
    rw [weight_leave]
    simp only [weight, hr, List.map_cons, List.sum_cons, Frame.weight, Item.weight, Node.weight]
    omega

theorem weight_closeBlock {frame : Frame} {frames : List Frame} {line : Nat}
    (h : r.closable? = some (frame, frames)) :
    (r.closeBlock frame frames line).weight w ≤ r.weight w := by
  unfold closable? at h
  split at h
  · next frame' frames' hr =>
    split at h
    · cases h
      have hclosed : (r.leave frame.outer frames
          (.tree (.block (r.origin frame.opener) frame.body.reverse))).weight w ≤ r.weight w := by
        rw [weight_leave]
        simp only [weight, hr, List.map_cons, List.sum_cons, Frame.weight, Item.weight,
          Node.weight, Node.weightAll_reverse]
        omega
      unfold closeBlock
      dsimp only
      split
      · exact hclosed
      · exact hclosed
    · simp at h
  · simp at h

theorem weight_of_readItem (h : r.readItem t = .ok r') :
    r'.weight w ≤ r.weight w + tokenWeight w t := by
  unfold readItem at h
  split at h
  case h_1 hkind =>
    cases h
    rw [weight_push, tokenWeight, if_pos hkind]
    exact Nat.le_refl _
  case h_2 | h_3 | h_4 | h_5 | h_6 | h_7 | h_8 | h_9 | h_10 =>
    cases h
    rw [weight_push]
    exact Nat.le_add_right _ _
  case h_11 | h_12 =>
    cases h
    exact Nat.le_add_right _ _
  case h_13 | h_14 | h_15 =>
    unfold enter at h
    split at h
    · simp at h
    · cases h
      simp only [weight, List.map_cons, List.sum_cons, Frame.weight, Node.weightAll,
        Item.weightAll_nil]
      omega
  case h_16 =>
    unfold endScript at h
    split at h
    · have hle := weight_of_endStatement (w := w) h
      rw [weight_push] at hle
      exact Nat.le_trans hle (Nat.le_add_right _ _)
    · split at h <;> simp at h
  case h_17 => simp at h

theorem weight_of_readToken (h : r.readToken t = .ok r') :
    r'.weight w ≤ r.weight w + tokenWeight w t := by
  unfold readToken at h
  split at h
  · exact Nat.le_trans (weight_of_endChain h) (Nat.le_add_right _ _)
  split at h
  · split at h
    · next frame frames hclosable =>
      cases h
      exact Nat.le_trans (weight_closeBlock hclosable) (Nat.le_add_right _ _)
    · simp at h
  · exact weight_of_readItem h

theorem weight_of_read (h : r.read t = .ok r') :
    r'.weight w ≤ r.weight w + tokenWeight w t := by
  unfold read at h
  split at h
  · exact weight_of_readToken h
  · split at h
    · next hkind =>
      cases h
      unfold pushStructHead
      rw [weight_push, tokenWeight, if_pos hkind]
      exact Nat.le_refl _
    · simp at h
  · split at h
    · cases h
      rw [weight_push]
      exact Nat.le_add_right _ _
    · obtain ⟨u, hu, h⟩ := bind_eq_ok.1 h
      cases hu
      have hle := weight_of_readToken (w := w) h
      rw [weight_push] at hle
      exact hle
  · split at h
    · exact Nat.le_trans (weight_of_endStatement h) (Nat.le_add_right _ _)
    · obtain ⟨u, hu, h⟩ := bind_eq_ok.1 h
      have hle := weight_of_endStatement (w := w) hu
      have hle' := weight_of_readToken (w := w) h
      omega

/-- The trees that are read from tokens have no more names than the tokens. -/
theorem weight_of_readAll {ts : List Token} (h : r.readAll ts = (r', none)) :
    r'.weight w ≤ r.weight w + (ts.map (tokenWeight w)).sum := by
  induction ts generalizing r with
  | nil =>
    cases h
    exact Nat.le_refl _
  | cons t ts ih =>
    obtain ⟨u, hu, h⟩ := readAll_cons_eq_none.1 h
    have hle := weight_of_read (w := w) hu
    have hle' := ih h
    rw [List.map_cons, List.sum_cons]
    omega

end Reader

/-- The statements of a script have no more names than its source. -/
theorem Script.weight_of_ofSource {source : String} {script : Script}
    (h : Script.ofSource source = .ok script) :
    (script.statements.map (Node.weightAll w)).sum ≤
      ((Token.scan source).tokens.map (tokenWeight w)).sum := by
  obtain ⟨-, r, hr, rfl⟩ := Script.ofSource_eq_ok_iff.1 h
  have hle := Reader.weight_of_readAll (w := w) hr
  simp only [Reader.weight, Reader.start, List.map_nil, List.sum_nil, Item.weightAll_nil] at hle
  rw [List.map_reverse, List.sum_reverse]
  omega

end ByteBricks.Syntax
