import ByteBricks.Proofs.Syntax.Folding
import ByteBricks.Proofs.Syntax.Steps
import ByteBricks.Syntax.Builder

/-! # Building is Reading

  The builder and the reader take the same tokens. The builder stores as cells what the reader
  holds as trees: its store contains the cells of the chains that the reader holds, and no
  others. Each step keeps this, or both stop for the same reason. Main statement: a builder that
  begins with an empty store gives the script of the reader. -/

namespace ByteBricks.Syntax

open BlockStore (Contains)
open Item (chained headOr)

/-! ### What is Stored -/

/-- The chain of cells that items are stored in. The items are in reverse. -/
def strand? (items : List Item) : Option Strand := do
  pure ⟨← headOr none items.reverse, (← items.head?).handle⟩

/-- The frame of the builder for one of the reader. -/
def Frame.stored (f : Frame) : Builder.Frame :=
  ⟨f.bracket, f.opener, strand? f.outer, strand? (f.body.map .tree)⟩

/-- The cells of the chains of a frame. -/
def Frame.layout (f : Frame) : Layout :=
  chained none f.outer.reverse + chained none (f.body.map .tree).reverse

namespace Reader

/-- The builder for a reader whose trees are stored in `cells`. -/
def stored (r : Reader) (cells : Cells) : Builder :=
  ⟨cells, r.frames.map Frame.stored, strand? r.chain, r.statements.filterMap Node.headOf, r.pending⟩

/-- The cells of the chains in frames and of the finished statements. -/
def outside (frames : List Frame) (statements : List (List Node)) : Layout :=
  (frames.map Frame.layout).sum + (statements.map Node.chained).sum

theorem outside_frame (frame : Frame) (frames : List Frame) (statements : List (List Node)) :
    outside (frame :: frames) statements = frame.layout + outside frames statements := by
  simp only [outside, List.map_cons, List.sum_cons, add_assoc]

theorem outside_statement (nodes : List Node) (frames : List Frame)
    (statements : List (List Node)) :
    outside frames (nodes :: statements) = Node.chained nodes + outside frames statements := by
  simp only [outside, List.map_cons, List.sum_cons, add_left_comm]

/-- The cells contain what the reader holds, and some extra cells. -/
structure Keeps (r : Reader) (extra : Layout) (cells : Cells) : Prop where
  /-- They are the cells of its chains and the extra ones. -/
  contents : cells.Contains (extra + (chained none r.chain.reverse + outside r.frames r.statements))
  /-- There is one for each of its trees. -/
  size : cells.size = r.count
  /-- Only a block holds finished statements. -/
  bodies : ∀ f ∈ r.frames, f.bracket ≠ .brace → f.body = []
  /-- No finished statement is empty. -/
  statements : ∀ nodes ∈ r.statements, nodes ≠ []

/-- The cells contain what the reader holds, and those of `base`, which were there before. -/
structure Stored (r : Reader) (base : Layout) (cells : Cells) : Prop extends
    Keeps r base cells where
  /-- A block that ends a statement is in its chain. -/
  ended : ∀ line, r.pending = .blockEnd line → r.chain ≠ [] ∧ r.terminator = .semicolon

/-- The builder does what the reader does: it stores what the reader holds, or both stop for the
    same reason. -/
inductive Mirrored (base : Layout) : Except Stop Builder → Except Error Reader → Prop
  /-- Both go on. -/
  | ok {r : Reader} {cells : Cells} :
    r.Stored base cells → Mirrored base (.ok (r.stored cells)) (.ok r)
  /-- Both stop. -/
  | error (stop : Stop) : stop.cells.Sound → Mirrored base (.error stop) (.error stop.error)

variable {base : Layout}

theorem Mirrored.of_eq {b : Builder} {r : Reader} (cells : Cells) (hb : b = r.stored cells)
    (h : r.Stored base cells) : Mirrored base (.ok b) (.ok r) :=
  hb ▸ .ok h

/-- What mirrors each other can be done one after the other. -/
theorem Mirrored.bind {x : Except Stop Builder} {y : Except Error Reader}
    {f : Builder → Except Stop Builder} {g : Reader → Except Error Reader} (h : Mirrored base x y)
    (hnext : ∀ (r : Reader) (cells : Cells), y = .ok r → r.Stored base cells →
      Mirrored base (f (r.stored cells)) (g r)) :
    Mirrored base (x >>= f) (y >>= g) := by
  cases h with
  | ok hr => exact hnext _ _ rfl hr
  | error stop hsound => exact .error stop hsound

variable {r : Reader} {cells : Cells} {t : Token}

theorem Mirrored.fail (h : r.Stored base cells) (line : Nat) (fault : Fault) :
    Mirrored base ((r.stored cells).fail line fault) (.error ⟨line, fault⟩) :=
  .error ⟨cells, line, fault⟩ h.contents.sound

theorem frames_stored : (r.stored cells).frames = r.frames.map Frame.stored := rfl

theorem terminator_of_nil (h : r.frames = []) : r.terminator = .semicolon := by
  rw [terminator, h]

theorem terminator_stored : (r.stored cells).terminator = r.terminator := by
  obtain ⟨frames, chain, statements, count, pending⟩ := r
  cases frames <;> rfl

end Reader

/-! ### Chains -/

theorem strand?_cons (item : Item) (items : List Item) :
    ∃ head, headOr none (item :: items).reverse = some head ∧
      strand? (item :: items) = some ⟨head, item.handle⟩ := by
  obtain ⟨first, rest, hreverse⟩ :=
    List.exists_cons_of_ne_nil (l := (item :: items).reverse) (by simp)
  refine ⟨first.handle, by rw [hreverse]; rfl, ?_⟩
  unfold strand?
  rw [hreverse]
  rfl

theorem strand?_isSome (items : List Item) : (strand? items).isSome ↔ items ≠ [] := by
  cases items with
  | nil => simp [strand?]
  | cons item items =>
    obtain ⟨head, -, hstrand⟩ := strand?_cons item items
    simp [hstrand]

theorem tail_strand? (items : List Item) :
    (strand? items).map Strand.tail = items.head?.map Item.handle := by
  cases items with
  | nil => rfl
  | cons item items =>
    obtain ⟨head, -, hstrand⟩ := strand?_cons item items
    rw [hstrand]
    rfl

/-- A chain that is stored begins with its first item. -/
theorem headOr_of_strand? {items : List Item} {strand : Strand} (h : strand? items = some strand) :
    headOr none items.reverse = some strand.head := by
  cases items with
  | nil => simp [strand?] at h
  | cons item items =>
    obtain ⟨head, hhead, hstrand⟩ := strand?_cons item items
    rw [hstrand] at h
    cases h
    exact hhead

/-- The first cell of a chain with another one behind it. -/
theorem headOr_strand? (front : List Item) {items : List Item} {head : Handle}
    (hhead : headOr none items.reverse = some head) :
    headOr none (items ++ front).reverse =
      some (((strand? front).map Strand.head).getD head) := by
  rw [List.reverse_append, Item.headOr_append]
  cases front with
  | nil => exact hhead
  | cons item front =>
    obtain ⟨first, hfirst, hstrand⟩ := strand?_cons item front
    rw [hstrand, hhead]
    rw [List.reverse_cons, Item.headOr_append] at hfirst ⊢
    exact hfirst

/-- A chain is appended to another one. -/
theorem Cells.link_eq {s : Cells} {m : Layout} {front items : List Item} {head : Handle}
    (hs : s.Contains (chained none front.reverse + (chained none items.reverse + m)))
    (hhead : headOr none items.reverse = some head) :
    ∃ s' strand, s.link (strand? front) head = (s', strand) ∧ s'.size = s.size ∧
      strand? (items ++ front) = some strand ∧
      s'.Contains (chained none (items ++ front).reverse + m) := by
  have hlinked := contains_relink hs (some head)
  rw [← tail_strand?] at hlinked
  refine ⟨_, _, rfl, relink_size .., ?_, ?_⟩
  · cases items with
    | nil => simp at hhead
    | cons item items =>
      rw [List.reverse_cons] at hlinked
      have hlast := last_eq (hlinked.of_eq (add_left_comm ..)) (by rwa [List.reverse_cons] at hhead)
      obtain ⟨first, hfirst, hstrand⟩ := strand?_cons item (items ++ front)
      rw [← List.cons_append, headOr_strand? front hhead] at hfirst
      rw [List.cons_append, hstrand, hlast, Option.some.inj hfirst]
  · refine hlinked.of_eq ?_
    rw [List.reverse_append, Item.chained_append, hhead, add_assoc]

/-! ### Cells of Delimiters -/

namespace Bracket

/-- The cell of the delimiter around a chain. -/
def cell (opener : Token) (head : Handle) : Bracket → Cell
  | paren => ⟨opener, .paren, none, head, none⟩
  | square => ⟨opener, .element, none, none, head⟩
  | brace => ⟨opener, .block, none, head, none⟩

variable (bracket : Bracket) (o : Origin)

theorem handle_item (nodes : List Node) : (bracket.item o nodes).handle = ⟨o.id⟩ := by
  cases bracket <;> rfl

theorem parts_item (nodes : List Node) : (bracket.item o nodes).parts = Node.chained nodes := by
  cases bracket with
  | paren | brace => exact (Item.parts_tree _).trans (by rw [Node.parts])
  | square => rfl

theorem cell_item {nodes : List Node} {head : Handle} (hhead : Node.headOf nodes = some head) :
    (bracket.item o nodes).cell none = bracket.cell o.token head := by
  cases bracket with
  | paren | brace | square => simp only [item, Item.cell, Node.cell, hhead, cell]

end Bracket

namespace Reader

variable {r : Reader} {base : Layout} {cells : Cells} {t : Token} {item : Item}

/-! ### Items -/

/-- A cell is stored for an item whose parts are stored. -/
theorem Keeps.push (h : r.Keeps (item.parts + base) cells) (hitem : item.handle = ⟨r.count⟩) :
    Mirrored base (.ok ((r.stored cells).push (item.cell none))) (.ok (r.push item)) := by
  -- The new cell is a chain of one item at first, and is then linked to the chain.
  have hpushed := h.contents.push (item.cell none)
  have hcells : (cells.push (item.cell none)).2.Contains (chained none r.chain.reverse +
      (chained none [item].reverse + (base + outside r.frames r.statements))) := by
    refine hpushed.of_eq ?_
    rw [List.reverse_singleton, chained, chained, hitem, h.size, Item.headOr_nil]
    ac_rfl
  have hhead : headOr none [item].reverse = some item.handle := rfl
  obtain ⟨cells', strand, hlink, hsize, hstrand, hlinked⟩ := Cells.link_eq hcells hhead
  have hbuilder : (r.stored cells).push (item.cell none) = (r.push item).stored cells' := by
    have hhandle : (cells.push (item.cell none)).1 = item.handle := by
      rw [BlockStore.push_fst, h.size, hitem]
    have hlink' : Cells.link (cells.push (item.cell none)).2 (strand? r.chain)
        (cells.push (item.cell none)).1 = (cells', strand) := by rw [hhandle, hlink]
    unfold Builder.push stored Reader.push
    dsimp only
    rw [hlink', ← hstrand]
    rfl
  rw [hbuilder]
  refine .ok ⟨⟨hlinked.of_eq (add_left_comm ..), ?_, h.bodies, h.statements⟩,
    by simp [Reader.push]⟩
  rw [hsize, BlockStore.push_size, h.size]
  rfl

theorem Stored.pushTree (h : r.Stored base cells) {kind : Cell.Kind} {node : Origin → Node}
    (horigin : ∀ o, (node o).origin = o) (hcell : ∀ o, (node o).cell none = .plain o.token kind)
    (hparts : ∀ o, (node o).parts = 0) :
    Mirrored base (.ok ((r.stored cells).push (.plain t kind))) (r.pushTree t node) := by
  have hitem : Item.handle (.tree (node (r.origin t))) = ⟨r.count⟩ := by
    show (⟨(node (r.origin t)).origin.id⟩ : Handle) = _
    rw [horigin]
    rfl
  have hkeeps : r.Keeps (Item.parts (.tree (node (r.origin t))) + base) cells := by
    rw [Item.parts_tree, hparts, zero_add]
    exact h.toKeeps
  have hpush := hkeeps.push hitem
  rwa [Item.cell_tree, hcell] at hpush

theorem Stored.pushOperator (h : r.Stored base cells) (op : BinaryOp) :
    Mirrored base (.ok ((r.stored cells).push (.plain t (.operator op))))
      (r.pushOperator t op) := by
  have hkeeps : r.Keeps (Item.parts (.operator (r.origin t) op) + base) cells := by
    rw [Item.parts_operator, zero_add]
    exact h.toKeeps
  exact hkeeps.push rfl

/-- The cell of the name of a struct declaration is an extra one until the head refers to it. -/
theorem Stored.named (h : r.Stored base cells) (word name : Token) :
    Keeps { r with count := r.count + 1 }
      (Item.parts (.tree (.structHead ⟨r.count + 1, word⟩ ⟨r.count, name⟩)) + base)
      (cells.push (.plain name .name)).2 := by
  refine ⟨?_, ?_, h.bodies, h.statements⟩
  · refine (h.contents.push (.plain name .name)).of_eq ?_
    rw [Item.parts_tree, Node.parts, h.size, add_assoc]
  · rw [BlockStore.push_size, h.size]

theorem Stored.cell_structHead (h : r.Stored base cells) (word name : Token) :
    Item.cell none (.tree (.structHead ⟨r.count + 1, word⟩ ⟨r.count, name⟩)) =
      (Cell.plain word .structHead).withFirst ⟨cells.size⟩ := by
  rw [h.size]
  rfl

/-- The name of a struct declaration is stored in front of its head. -/
theorem Stored.pushStructHead (h : r.Stored base cells) (word name : Token) :
    Mirrored base (.ok ((r.stored cells).pushStructHead word name))
      (.ok (r.pushStructHead word name)) := by
  have hpush := (h.named word name).push rfl
  rw [h.cell_structHead] at hpush
  exact hpush

/-! ### Chains that End -/

/-- A chain is folded as it is resolved. -/
theorem Mirrored.foldChain {m : Layout} {strand : Strand} {line : Nat}
    {f : Cells × Handle → Except Stop Builder} {g : List Node → Except Error Reader}
    (hs : cells.Contains (chained none r.chain.reverse + m))
    (hchain : strand? r.chain = some strand)
    (hnext : ∀ (cells' : Cells) (head : Handle) (nodes : List Node),
      cells'.Contains (Node.chained nodes + m) → cells'.size = cells.size →
      Node.headOf nodes = some head → Mirrored base (f (cells', head)) (g nodes)) :
    Mirrored base ((r.stored cells).foldChain line strand >>= f)
      (r.resolveChain line >>= g) := by
  have hfolded := Cells.fold_folded hs (headOr_of_strand? hchain)
  unfold Builder.foldChain resolveChain
  rw [show (r.stored cells).cells = cells from rfl]
  generalize cells.fold strand.head = folded at hfolded
  generalize resolve r.chain.reverse = resolved at hfolded
  cases hfolded with
  | ok hs hsize hhead => exact hnext _ _ _ hs hsize hhead
  | @error s t hsound =>
    exact .error ⟨s, line, .missingOperand t.kind⟩ hsound

/-- A statement is ended outside of all delimiters. -/
theorem Keeps.outerStatement {cells' : Cells} {head : Handle} {nodes : List Node}
    (h : r.Keeps base cells)
    (hs : cells'.Contains (Node.chained nodes + (base + outside r.frames r.statements)))
    (hsize : cells'.size = cells.size) (hhead : Node.headOf nodes = some head)
    (hframes : r.frames = []) :
    Mirrored base (.ok ⟨cells', [], none, head :: r.statements.filterMap Node.headOf, .nothing⟩)
      (.ok ⟨[], [], nodes :: r.statements, r.count, .nothing⟩) := by
  refine .of_eq cells' ?_ ⟨⟨hs.of_eq ?_, hsize.trans h.size, by simp, ?_⟩, by simp⟩
  · simp only [stored, List.filterMap_cons_some hhead]
    rfl
  · rw [outside_statement, hframes, List.reverse_nil, chained, zero_add, add_left_comm]
  · refine List.forall_mem_cons.2 ⟨?_, h.statements⟩
    rintro rfl
    simp [Node.headOf] at hhead

/-- A statement is ended inside of a block. -/
theorem Keeps.innerStatement {cells' : Cells} {head : Handle} {nodes : List Node} {frame : Frame}
    {frames : List Frame} (h : r.Keeps base cells)
    (hs : cells'.Contains (Node.chained nodes + (base + outside r.frames r.statements)))
    (hsize : cells'.size = cells.size) (hhead : Node.headOf nodes = some head)
    (hframes : r.frames = frame :: frames) (hbrace : frame.bracket = .brace) :
    Mirrored base (.ok (
        let (cells'', body) := Cells.link cells' frame.stored.body head
        ⟨cells'', { frame.stored with body := some body } :: frames.map Frame.stored, none,
          r.statements.filterMap Node.headOf, .nothing⟩))
      (.ok ⟨{ frame with body := nodes.reverse ++ frame.body } :: frames, [], r.statements, r.count,
        .nothing⟩) := by
  have hitems : chained none (nodes.reverse.map Item.tree).reverse = Node.chained nodes := by
    rw [← List.map_reverse, List.reverse_reverse, Item.chained_map_tree]
  have hhead' : headOr none (nodes.reverse.map Item.tree).reverse = some head := by
    rw [← List.map_reverse, List.reverse_reverse, Item.headOr_map_tree, hhead]
  have hcells : cells'.Contains (chained none (frame.body.map .tree).reverse +
      (chained none (nodes.reverse.map Item.tree).reverse + (base +
        (chained none frame.outer.reverse + outside frames r.statements)))) := by
    refine hs.of_eq ?_
    rw [hitems, hframes, outside_frame, Frame.layout]
    ac_rfl
  obtain ⟨cells'', body, hlink, hsize', hbody, hlinked⟩ := Cells.link_eq hcells hhead'
  rw [← List.map_append] at hbody hlinked
  have hlink : Cells.link cells' frame.stored.body head = (cells'', body) := hlink
  rw [hlink]
  refine .of_eq cells'' ?_ ⟨⟨hlinked.of_eq ?_, hsize'.trans (hsize.trans h.size), ?_,
    h.statements⟩, by simp⟩
  · simp only [stored, List.map_cons, Frame.stored, hbody]
    rfl
  · rw [outside_frame, Frame.layout, List.reverse_nil, chained]
    ac_rfl
  · have hbodies := h.bodies
    rw [hframes] at hbodies
    exact List.forall_mem_cons.2 ⟨fun hne => absurd hbrace hne, (List.forall_mem_cons.1 hbodies).2⟩

/-- A statement is ended. -/
theorem Keeps.endStatement (h : r.Keeps base cells) (hchain : r.chain ≠ [])
    (hterminator : r.terminator = .semicolon) (line : Nat) :
    Mirrored base ((r.stored cells).endStatement line) (r.endStatement line) := by
  obtain ⟨strand, hstrand⟩ := Option.isSome_iff_exists.1 ((strand?_isSome _).2 hchain)
  have hstored : (r.stored cells).chain = some strand := hstrand
  unfold Builder.endStatement Reader.endStatement
  rw [hstored]
  apply Mirrored.foldChain (h.contents.of_eq (add_left_comm ..)) hstrand
  intro cells' head nodes hs hsize hhead
  cases hframes : r.frames with
  | nil =>
    dsimp only
    rw [frames_stored, hframes]
    exact h.outerStatement hs hsize hhead hframes
  | cons frame frames =>
    have hbrace : frame.bracket = .brace := by
      rw [terminator, hframes] at hterminator
      cases hbracket : frame.bracket <;> simp [Bracket.terminator, hbracket] at hterminator ⊢
    dsimp only
    rw [frames_stored, hframes]
    exact h.innerStatement hs hsize hhead hframes hbrace

/-! ### Delimiters -/

theorem Mirrored.stored {b : Builder} (h : Mirrored base (.ok b) (.ok r)) :
    ∃ cells, b = r.stored cells ∧ r.Stored base cells := by
  cases h with
  | ok hr => exact ⟨_, rfl, hr⟩

/-- A delimiter is opened. -/
theorem Stored.enter (h : r.Stored base cells) (hpending : r.pending = .nothing)
    (bracket : Bracket) :
    Mirrored base ((r.stored cells).enter bracket t) (r.enter bracket t) := by
  unfold Builder.enter Reader.enter
  rw [frames_stored, List.length_map]
  split
  · exact .fail h _ _
  · refine .of_eq cells rfl ⟨⟨h.contents.of_eq ?_, h.size, ?_, h.statements⟩, by simp [hpending]⟩
    · rw [outside_frame, Frame.layout, List.map_nil, List.reverse_nil, chained]
      ac_rfl
    · exact List.forall_mem_cons.2 ⟨fun _ => rfl, h.bodies⟩

/-- The innermost delimiter is closed, and what is inside of it is left over. -/
theorem Keeps.outer {extra inner : Layout} {cells' : Cells} {frame : Frame} {frames : List Frame}
    (h : r.Keeps extra cells) (hframes : r.frames = frame :: frames)
    (hs : cells'.Contains (inner + base + (chained none frame.outer.reverse +
      outside frames r.statements)))
    (hsize : cells'.size = r.count) :
    Keeps { r with frames := frames, chain := frame.outer } (inner + base) cells' := by
  have hbodies := h.bodies
  rw [hframes] at hbodies
  exact ⟨hs, hsize, (List.forall_mem_cons.1 hbodies).2, h.statements⟩

theorem headOf_reverse (body : List Node) :
    Node.headOf body.reverse = (strand? (body.map .tree)).map Strand.head := by
  rw [← Item.headOr_map_tree, List.map_reverse]
  cases body with
  | nil => rfl
  | cons n body =>
    obtain ⟨head, hhead, hstrand⟩ := strand?_cons (.tree n) (body.map .tree)
    rw [List.map_cons, hhead, hstrand]
    rfl

theorem cell_block (frame : Frame) (count : Nat) :
    Item.cell none (.tree (.block ⟨count, frame.opener⟩ frame.body.reverse)) =
      ⟨frame.opener, .block, none, frame.stored.body.map Strand.head, none⟩ := by
  show Node.cell none (.block _ _) = _
  rw [Node.cell, headOf_reverse]
  rfl

/-- The statements of a block are left over. -/
theorem Stored.outerBlock {frame : Frame} {frames : List Frame} (h : r.Stored base cells)
    (hframes : r.frames = frame :: frames) (hchain : r.chain = []) :
    Keeps { r with frames := frames, chain := frame.outer }
      (Node.chained frame.body.reverse + base) cells := by
  refine h.toKeeps.outer hframes (h.contents.of_eq ?_) h.size
  rw [← Item.chained_map_tree, List.map_reverse, hchain, hframes, outside_frame, Frame.layout,
    List.reverse_nil, chained]
  ac_rfl

/-- A block is closed. -/
theorem Stored.closeBlock {frame : Frame} {frames : List Frame} (h : r.Stored base cells)
    (hframes : r.frames = frame :: frames) (hchain : r.chain = []) (line : Nat) :
    Mirrored base (.ok ((r.stored cells).closeBlock frame.stored (frames.map Frame.stored) line))
      (.ok (r.closeBlock frame frames line)) := by
  let item : Item := .tree (.block (r.origin frame.opener) frame.body.reverse)
  have hkeeps := h.outerBlock hframes hchain
  have hparts : item.parts = Node.chained frame.body.reverse := by rw [Item.parts_tree, Node.parts]
  rw [← hparts] at hkeeps
  have hleave : Mirrored base (.ok ((r.stored cells).leave (strand? frame.outer)
      (frames.map Frame.stored) (item.cell none))) (.ok (r.leave frame.outer frames item)) :=
    hkeeps.push rfl
  rw [show item.cell none = _ from cell_block frame r.count] at hleave
  -- The closed block is the last item of its chain, which may end with it.
  obtain ⟨cells', hbuilder, hstored⟩ := hleave.stored
  unfold Builder.closeBlock Reader.closeBlock
  dsimp only
  rw [show frame.stored.outer = strand? frame.outer from rfl,
    show frame.stored.opener = frame.opener from rfl, hbuilder, terminator_stored]
  split
  · next hterminator =>
    refine .of_eq cells' rfl ⟨⟨hstored.contents, hstored.size, hstored.bodies,
      hstored.statements⟩, fun _ _ => ⟨?_, hterminator⟩⟩
    simp [Reader.leave, Reader.push]
  · exact .ok hstored

theorem closable?_stored : (r.stored cells).closable? =
    r.closable?.map fun (frame, frames) => (frame.stored, frames.map Frame.stored) := by
  obtain ⟨frames, chain, statements, count, pending⟩ := r
  cases frames with
  | nil => rfl
  | cons frame frames =>
    have hbody : (strand? (frame.body.map Item.tree)).isSome ↔ frame.body ≠ [] := by
      rw [strand?_isSome, ne_eq, List.map_eq_nil_iff]
    have hchain : (strand? chain).isNone ↔ chain = [] := by
      rw [Option.isNone_iff_eq_none, ← Option.not_isSome_iff_eq_none, strand?_isSome, not_not]
    have hcond : (frame.stored.bracket = .brace ∧ frame.stored.body.isSome ∧
        (strand? chain).isNone) ↔ (frame.bracket = .brace ∧ frame.body ≠ [] ∧ chain = []) := by
      rw [hchain, ← hbody]
      rfl
    show (if frame.stored.bracket = .brace ∧ frame.stored.body.isSome ∧ (strand? chain).isNone then
      some (frame.stored, frames.map Frame.stored) else none) =
        (if frame.bracket = .brace ∧ frame.body ≠ [] ∧ chain = [] then some (frame, frames)
          else none).map _
    by_cases hc : frame.bracket = .brace ∧ frame.body ≠ [] ∧ chain = []
    · rw [if_pos hc, if_pos (hcond.2 hc)]
      rfl
    · rw [if_neg hc, if_neg (mt hcond.1 hc)]
      rfl

/-- The folded chain in parentheses or brackets is left over. -/
theorem Stored.outerChain {frame : Frame} {frames : List Frame} {cells' : Cells}
    {nodes : List Node} (h : r.Stored base cells) (hframes : r.frames = frame :: frames)
    (hbracket : frame.bracket ≠ .brace)
    (hs : cells'.Contains (Node.chained nodes + (base + outside r.frames r.statements)))
    (hsize : cells'.size = cells.size) :
    Keeps { r with frames := frames, chain := frame.outer } (Node.chained nodes + base) cells' := by
  have hmem : frame ∈ r.frames := by rw [hframes]; exact List.mem_cons_self
  have hbody : frame.body = [] := h.bodies frame hmem hbracket
  refine h.toKeeps.outer hframes (hs.of_eq ?_) (hsize.trans h.size)
  rw [hframes, outside_frame, Frame.layout, hbody, List.map_nil, List.reverse_nil, chained]
  ac_rfl

/-- Parentheses or brackets are closed behind a chain. -/
theorem Stored.closeChain {frame : Frame} {frames : List Frame} {strand : Strand}
    (h : r.Stored base cells) (hframes : r.frames = frame :: frames)
    (hbracket : frame.bracket ≠ .brace) (hchain : strand? r.chain = some strand) (line : Nat) :
    Mirrored base (do
        let (cells, head) ← (r.stored cells).foldChain line strand
        pure ({ r.stored cells with cells := cells }.leave (strand? frame.outer)
          (frames.map Frame.stored) (frame.bracket.cell frame.opener head)))
      (do
        let nodes ← r.resolveChain line
        pure (r.leave frame.outer frames (frame.bracket.item (r.origin frame.opener) nodes))) := by
  apply Mirrored.foldChain (h.contents.of_eq (add_left_comm ..)) hchain
  intro cells' head nodes hs hsize hhead
  have hkeeps := h.outerChain hframes hbracket hs hsize
  rw [← frame.bracket.parts_item (r.origin frame.opener)] at hkeeps
  have hleave := hkeeps.push (frame.bracket.handle_item _ nodes)
  rw [frame.bracket.cell_item _ hhead] at hleave
  exact hleave

/-! ### Tokens -/

/-- The token that ends the chain is read. -/
theorem Stored.endChain (h : r.Stored base cells) :
    Mirrored base ((r.stored cells).endChain t) (r.endChain t) := by
  have hchainStored : (r.stored cells).chain = strand? r.chain := rfl
  unfold Builder.endChain Reader.endChain
  by_cases hchain : r.chain = []
  · rw [hchainStored, hchain]
    exact .fail h _ _
  · obtain ⟨strand, hstrand⟩ := Option.isSome_iff_exists.1 ((strand?_isSome _).2 hchain)
    have hne : r.chain.isEmpty = false := by simpa using hchain
    rw [hchainStored, hstrand, hne]
    cases hframes : r.frames with
    | nil =>
      rw [frames_stored, hframes]
      exact h.toKeeps.endStatement hchain (terminator_of_nil hframes) t.line
    | cons frame frames =>
      rw [frames_stored, hframes]
      obtain ⟨bracket, opener, outer, body⟩ := frame
      cases bracket with
      | paren | square => exact h.closeChain hframes (by simp) hstrand t.line
      | brace => exact h.toKeeps.endStatement hchain (by rw [terminator, hframes]; rfl) t.line

/-- The mark for the end of the script is stored. -/
theorem Stored.pushEnd (h : r.Stored base cells) (t : Token) :
    ∃ cells', (r.stored cells).push (.plain t .scriptEnd) =
        (r.push (.tree (.scriptEnd (r.origin t)))).stored cells' ∧
      (r.push (.tree (.scriptEnd (r.origin t)))).Stored base cells' := by
  have hpush : Mirrored base (.ok ((r.stored cells).push (.plain t .scriptEnd)))
      (r.pushTree t .scriptEnd) :=
    h.pushTree (fun _ => rfl) (fun _ => rfl) (fun _ => by rw [Node.parts])
  exact Mirrored.stored hpush

/-- The end of the source is read. -/
theorem Stored.endScript (h : r.Stored base cells) :
    Mirrored base ((r.stored cells).endScript t) (r.endScript t) := by
  unfold Builder.endScript Reader.endScript
  cases hframes : r.frames with
  | nil =>
    obtain ⟨cells', hbuilder, hstored⟩ := h.pushEnd t
    rw [frames_stored, hframes]
    dsimp only [List.map_nil]
    rw [hbuilder]
    exact hstored.toKeeps.endStatement (by simp [Reader.push]) (terminator_of_nil hframes) t.line
  | cons frame frames =>
    rw [frames_stored, hframes]
    show Mirrored base (if frame.bracket = .brace then _ else _)
      (if frame.bracket = .brace then _ else _)
    split
    · exact .fail h _ _
    · exact .fail h _ _

/-- A token is read that neither ends the chain nor closes a block. -/
theorem Stored.readItem (h : r.Stored base cells) (hpending : r.pending = .nothing) :
    Mirrored base ((r.stored cells).readItem t) (r.readItem t) := by
  unfold Builder.readItem Reader.readItem
  cases t.kind
  case name | integer | ifWord | elseWord | whileWord =>
    exact h.pushTree (fun _ => rfl) (fun _ => rfl) (fun _ => by simp [Node.parts])
  case dot | plus | minus | star | slash => exact h.pushOperator _
  case equals | structWord =>
    exact .of_eq cells rfl ⟨⟨h.contents, h.size, h.bodies, h.statements⟩, by simp⟩
  case openParen | openBracket | openBrace => exact h.enter hpending _
  case endOfInput => exact h.endScript
  all_goals exact .fail h _ _

/-- A token is read when nothing is pending. -/
theorem Stored.readToken (h : r.Stored base cells) (hpending : r.pending = .nothing) :
    Mirrored base ((r.stored cells).readToken t) (r.readToken t) := by
  unfold Builder.readToken Reader.readToken
  rw [terminator_stored, closable?_stored]
  split
  · exact h.endChain
  · split
    · cases hclosable : r.closable? with
      | none => exact .fail h _ _
      | some closed =>
        obtain ⟨frame, frames⟩ := closed
        obtain ⟨hframes, -, -, hchain⟩ := closable?_eq_some_iff.1 hclosable
        exact h.closeBlock hframes hchain t.line
    · exact h.readItem hpending

theorem pending_of_endStatement {line : Nat} {r' : Reader} (h : r.endStatement line = .ok r') :
    r'.pending = .nothing := by
  obtain ⟨nodes, -, rfl⟩ := endStatement_eq_ok_iff.1 h
  exact ended_pending nodes r.count

/-- The builder reads a token as the reader does. -/
theorem Stored.read (h : r.Stored base cells) :
    Mirrored base ((r.stored cells).read t) (r.read t) := by
  have hpending : (r.stored cells).pending = r.pending := rfl
  unfold Builder.read Reader.read
  rw [hpending]
  cases hp : r.pending with
  | nothing => exact h.readToken hp
  | structName word =>
    dsimp only
    split
    · exact h.pushStructHead word t
    · exact .fail h _ _
  | equals sign =>
    dsimp only
    split
    · exact h.pushOperator _
    · have hpush := h.pushOperator (t := sign) .assign
      refine hpush.bind (f := (·.readToken t)) (g := (·.readToken t)) fun r' _ hr' hstored => ?_
      cases hr'
      exact hstored.readToken rfl
  | blockEnd line =>
    obtain ⟨hchain, hterminator⟩ := h.ended line hp
    dsimp only
    split
    · exact h.toKeeps.endStatement hchain hterminator t.line
    · exact (h.toKeeps.endStatement hchain hterminator line).bind fun _ _ hr' hstored =>
        hstored.readToken (pending_of_endStatement hr')

/-! ### Scripts -/

/-- The last state that tokens lead to, or what stops the reader there. -/
def outcome (r : Reader × Option Error) : Except Error Reader :=
  match r with
  | (r, none) => .ok r
  | (_, some e) => .error e

/-- The builder reads tokens as the reader does. -/
theorem Stored.readAll (h : r.Stored base cells) (ts : List Token) :
    Mirrored base ((r.stored cells).readAll ts) (outcome (r.readAll ts)) := by
  induction ts generalizing r cells with
  | nil => exact .ok h
  | cons t ts ih =>
    have hnext : outcome (r.readAll (t :: ts)) = r.read t >>= fun r => outcome (r.readAll ts) := by
      rw [Reader.readAll]
      cases r.read t <;> rfl
    rw [hnext]
    exact h.read.bind fun _ _ _ hr => ih hr

theorem stored_start_of_contains (hs : cells.Contains base) :
    (start cells.size).Stored base cells where
  contents := by
    refine hs.of_eq ?_
    simp [start, outside, chained]
  size := rfl
  bodies := by simp [start]
  statements := by simp [start]
  ended := by simp [start]

theorem stored_start : (start 0).Stored 0 .empty := stored_start_of_contains .empty

/-- The trees of a finished statement are read back off its cells. -/
theorem Stored.trees_eq (h : r.Stored base cells) {nodes : List Node}
    (hnodes : nodes ∈ r.statements) {head : Handle} (hhead : Node.headOf nodes = some head) :
    Cells.trees cells head = nodes := by
  -- All other cells may be anything.
  obtain ⟨before, after, hstatements⟩ := List.append_of_mem hnodes
  refine Cells.trees_eq (m := base + (r.frames.map Frame.layout).sum +
    chained none r.chain.reverse + ((before.map Node.chained).sum + (after.map Node.chained).sum))
    (h.contents.of_eq ?_) hhead
  simp only [outside, hstatements, List.map_append, List.map_cons, List.sum_append, List.sum_cons]
  ac_rfl

theorem Stored.script (h : r.Stored base cells) :
    (r.stored cells).script = ⟨r.statements.reverse, r.count⟩ := by
  have htrees : ∀ statements ⊆ r.statements,
      (statements.filterMap Node.headOf).map (Cells.trees cells) = statements := by
    intro statements hsub
    induction statements with
    | nil => rfl
    | cons nodes statements ih =>
      obtain ⟨hnodes, hrest⟩ := List.cons_subset.1 hsub
      obtain ⟨n, rest, rfl⟩ := List.exists_cons_of_ne_nil (h.statements nodes hnodes)
      have hhead : Node.headOf (n :: rest) = some n.handle := rfl
      rw [List.filterMap_cons_some hhead, List.map_cons, h.trees_eq hnodes hhead, ih hrest]
  have hstatements : (r.stored cells).statements = r.statements.filterMap Node.headOf := rfl
  have hcells : (r.stored cells).cells = cells := rfl
  unfold Builder.script
  rw [hstatements, hcells, List.map_reverse, htrees _ (List.Subset.refl _), h.size]

end Reader

/-- **Main theorem.** The cells that begin as an empty store give the script of the reader, or
    both fail for the same reason; they stand for a list in both cases. -/
theorem Cells.read_empty (scan : Token.Scan) :
    (Cells.read .empty scan).2 = (Script.readFrom 0 scan).2 ∧
      (Cells.read .empty scan).1.Sound := by
  have hread := Reader.stored_start.readAll scan.tokens
  have hstart : (Reader.start 0).stored .empty = Builder.start .empty := rfl
  rw [hstart] at hread
  unfold Cells.read Script.readFrom
  generalize (Builder.start .empty).readAll scan.tokens = built at hread
  generalize (Reader.start 0).readAll scan.tokens = out at hread
  obtain ⟨r, stopped⟩ := out
  dsimp only [Reader.outcome] at hread
  cases stopped with
  | some e =>
    cases hread with
    | error stop hsound => exact ⟨rfl, hsound⟩
  | none =>
    cases hread with
    | @ok _ cells hr =>
      cases scan.failure with
      | some e => exact ⟨rfl, hr.contents.sound⟩
      | none =>
        dsimp only
        rw [hr.script]
        exact ⟨rfl, hr.contents.sound⟩

end ByteBricks.Syntax
