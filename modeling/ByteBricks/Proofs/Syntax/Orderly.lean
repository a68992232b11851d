import ByteBricks.Proofs.Syntax.Builder
import ByteBricks.Proofs.Syntax.Forest
import ByteBricks.Proofs.Syntax.Stages
import ByteBricks.Proofs.Token.Words

/-! # Forests at All Times

  At each stage the store of the builder is made of the chains that the builder knows, of chains
  that it has finished, and of cells that are not in a chain yet, all of them beside the cells
  that were there before. Main statement: at all stages of reading a source the cells are a
  forest, every chain that can still grow ends in its last cell, and each step of folding a chain
  leaves one operator less without operands; in the end, every cell is reached along exactly one
  path from the heads of the statements. -/

namespace ByteBricks.Syntax

open BlockStore (Contains Has)
open Item (chained headOr spine)

/-! ### Folding Down -/

namespace Cells

/-- The number of the operators of a chain that still lack their operands. -/
def openCount (s : Cells) (head : Handle) : Nat :=
  (s.chain (some head)).countP (·.2.openLevel?.isSome)

/-- The operators of a chain are folded until none is left. -/
structure FoldsDown (s : Cells) (head : Handle) : Prop where
  /-- After any number of steps, one more step leaves one operator less. -/
  decreases {limit : Nat} {t t' : Cells} {h : Handle} {c : Candidate} :
    foldFrom limit s head = (t, .ok h) → t.candidate? h = some c → t.foldAt? c = some t' →
    t'.openCount (c.newHead h) + 1 = t.openCount h
  /-- No operator is left in the end. -/
  ends {t : Cells} {h : Handle} : s.fold head = (t, .ok h) → t.candidate? h = none

variable {s s' : Cells} {m : Layout} {items : List Item} {head : Handle} {c : Candidate}

theorem openCount_eq (hs : s.Contains (chained none items + m))
    (hhead : headOr none items = some head) :
    s.openCount head = items.countP (·.level?.isSome) := by
  have hspine (items : List Item) :
      (spine none items).countP (·.2.openLevel?.isSome) = items.countP (·.level?.isSome) := by
    induction items with
    | nil => rfl
    | cons item items ih => rw [spine, List.countP_cons, List.countP_cons, ih, Item.openLevel?_cell]
  have hchain := chain_eq_spine (BlockStore.has_add.1 hs.has).1 (length_le_size hs)
  unfold openCount
  rw [← hhead, hchain, hspine]

/-- The candidate of a chain is one of its items. -/
theorem exists_leads (hs : s.Contains (chained none items + m))
    (hhead : headOr none items = some head) (hc : s.candidate? head = some c) :
    ∃ level before item after, items = before.reverse ++ item :: after ∧
      Leads level before item after ∧ c = candidateOf level before item (headOr none after) := by
  have hbest := best_candidate? hs hhead
  rw [hc] at hbest
  generalize hpassed : items.reverse = passed at hbest
  cases hbest with
  | @found level before after item hleads =>
    refine ⟨level, before, item, after, ?_, hleads, rfl⟩
    rw [← List.reverse_reverse items, hpassed]
    simp

/-- A step of folding turns a chain into one with an operator less. -/
theorem foldAt?_chained (hs : s.Contains (chained none items + m))
    (hhead : headOr none items = some head) (hc : s.candidate? head = some c)
    (hstep : s.foldAt? c = some s') :
    ∃ items', s'.Contains (chained none items' + m) ∧
      headOr none items' = some (c.newHead head) ∧
      items'.countP (·.level?.isSome) + 1 = items.countP (·.level?.isSome) := by
  obtain ⟨level, before, item, after, rfl, hleads, rfl⟩ := exists_leads hs hhead hc
  cases hfold : foldItem? before item after with
  | none =>
    rw [foldAt?_eq_none hs hleads.operator hfold] at hstep
    cases hstep
  | some out =>
    obtain ⟨before', n, after'⟩ := out
    obtain ⟨s'', hstep', -, hs'⟩ := foldAt?_eq_some level hs hfold
    rw [hstep'] at hstep
    cases hstep
    exact ⟨_, hs', headOr_newHead hfold hhead, countP_foldItem? hleads.operator hfold⟩

/-- Any number of steps of folding leave a chain. -/
theorem foldFrom_chained (limit : Nat) (hs : s.Contains (chained none items + m))
    (hhead : headOr none items = some head) :
    ∃ items', (foldFrom limit s head).1.Contains (chained none items' + m) ∧
      ∀ h, (foldFrom limit s head).2 = .ok h → headOr none items' = some h := by
  induction limit generalizing s items head with
  | zero =>
    refine ⟨items, hs, fun h heq => ?_⟩
    cases heq
    exact hhead
  | succ limit ih =>
    rw [foldFrom]
    cases hc : s.candidate? head with
    | none =>
      refine ⟨items, hs, fun h heq => ?_⟩
      cases heq
      exact hhead
    | some c =>
      dsimp only
      cases hstep : s.foldAt? c with
      | none => exact ⟨items, hs, by simp⟩
      | some s' =>
        obtain ⟨items', hs', hhead', -⟩ := foldAt?_chained hs hhead hc hstep
        exact ih hs' hhead'

theorem foldsDown (hs : s.Contains (chained none items + m))
    (hhead : headOr none items = some head) : s.FoldsDown head := by
  constructor
  · intro limit t t' h c hfold hc hstep
    obtain ⟨items', ht, hheadt⟩ := foldFrom_chained limit hs hhead
    rw [hfold] at ht hheadt
    obtain ⟨items'', ht', hhead', hcount⟩ := foldAt?_chained ht (hheadt h rfl) hc hstep
    rw [openCount_eq ht' hhead', openCount_eq ht (hheadt h rfl), hcount]
  · intro t h hfold
    have hfolded := fold_folded hs hhead
    rw [hfold] at hfolded
    generalize resolve items = resolved at hfolded
    cases hfolded with
    | @ok _ _ nodes ht _ hhead' =>
      rw [← Item.chained_map_tree] at ht
      rw [← Item.headOr_map_tree] at hhead'
      by_contra hsome
      obtain ⟨c, hc⟩ := Option.ne_none_iff_exists'.1 hsome
      obtain ⟨level, before, item, after, hitems, hleads, -⟩ := exists_leads ht hhead' hc
      -- The trees that are left are no operators without operands.
      have hmem : item ∈ nodes.map Item.tree := by rw [hitems]; simp
      obtain ⟨n, -, rfl⟩ := List.mem_map.1 hmem
      have hlevel := hleads.operator
      cases hlevel

theorem walks_spine (hs : s.Has (chained none items)) :
    s.Walks (headOr none items) (spine none items) := by
  induction items with
  | nil => exact .done
  | cons item items ih =>
    rw [chained, BlockStore.has_add, BlockStore.has_add, BlockStore.has_singleton] at hs
    exact .step hs.1.1 (by rw [Item.cell_next]; exact ih hs.2)

/-- The last cell of a stored chain is met last on a walk along it. -/
theorem ends_of_strand? {strand : Strand} (hs : s.Has (chained none items.reverse))
    (hstrand : strand? items = some strand) :
    ∃ front c, s.Walks (some strand.head) (front ++ [(strand.tail, c)]) := by
  have hwalks := walks_spine hs
  rw [headOr_of_strand? hstrand] at hwalks
  cases items with
  | nil => cases hstrand
  | cons item items =>
    obtain ⟨head, -, heq⟩ := strand?_cons item items
    rw [heq] at hstrand
    cases hstrand
    rw [List.reverse_cons, Item.spine_append] at hwalks
    exact ⟨_, _, hwalks⟩

end Cells

/-! ### What a Builder Knows -/

namespace Builder

/-- The chains that can still grow. -/
def strands (b : Builder) : List Strand :=
  b.chain.toList ++ b.frames.flatMap fun frame => frame.outer.toList ++ frame.body.toList

/-- The cells are in order. -/
structure Orderly (b : Builder) : Prop where
  /-- They are a forest. -/
  forest : b.cells.IsForest
  /-- Every walk from a cell to the next ones ends. -/
  walks : ∀ h ∈ b.cells.places, b.cells.Walks (some h) (b.cells.chain (some h))
  /-- A chain that can still grow ends in the cell that the builder takes for its last one. -/
  tails : ∀ strand ∈ b.strands, ∃ front c,
    b.cells.Walks (some strand.head) (front ++ [(strand.tail, c)])
  /-- The chain that is being read is folded until no operator is left. -/
  folding : ∀ strand, b.chain = some strand → b.cells.FoldsDown strand.head

/-- Beside the cells of `base`, those of the chains that the builder knows are stored, those of
    finished statements, and some that are not in a chain yet. -/
inductive Laid (base : Layout) (b : Builder) : Prop
  /-- The chains are those of items. -/
  | of {loose : Layout} {roots : Multiset Handle} (frames : List Syntax.Frame) (chain : List Item)
    (statements : List (List Node)) : Rooted loose roots →
    b.cells.Contains (loose + base + (chained none chain.reverse +
      Reader.outside frames statements)) →
    b.frames = frames.map Frame.stored → b.chain = strand? chain → Laid base b

end Builder

namespace Rooted

/-- The cells of several layouts. -/
theorem exists_sum {α : Type} {layout : α → Layout} (h : ∀ a, ∃ roots, Rooted (layout a) roots)
    (as : List α) : ∃ roots, Rooted (as.map layout).sum roots := by
  induction as with
  | nil => exact ⟨0, .empty⟩
  | cons a as ih =>
    obtain ⟨roots, hroots⟩ := h a
    obtain ⟨roots', hroots'⟩ := ih
    rw [List.map_cons, List.sum_cons]
    exact ⟨_, hroots.add hroots'⟩

theorem exists_chained (items : List Item) : ∃ roots, Rooted (Item.chained none items) roots :=
  ⟨_, (Rooted.empty.chainedItems items).of_eq (add_zero _).symm rfl⟩

theorem exists_outside (frames : List Frame) (statements : List (List Node)) :
    ∃ roots, Rooted (Reader.outside frames statements) roots := by
  have hframe (frame : Frame) : ∃ roots, Rooted frame.layout roots := by
    obtain ⟨roots, hroots⟩ := exists_chained frame.outer.reverse
    obtain ⟨roots', hroots'⟩ := exists_chained (frame.body.map .tree).reverse
    exact ⟨_, hroots.add hroots'⟩
  have hstatement (nodes : List Node) : ∃ roots, Rooted (Node.chained nodes) roots := by
    rw [← Item.chained_map_tree]
    exact exists_chained _
  obtain ⟨roots, hroots⟩ := exists_sum hframe frames
  obtain ⟨roots', hroots'⟩ := exists_sum hstatement statements
  exact ⟨_, hroots.add hroots'⟩

/-- The heads of finished statements are the roots of their cells. -/
theorem ofStatements (statements : List (List Node)) :
    Rooted (statements.map Node.chained).sum (statements.filterMap Node.headOf : List Handle) := by
  induction statements with
  | nil => exact .empty
  | cons nodes statements ih =>
    rw [List.map_cons, List.sum_cons]
    refine (ih.chained nodes).of_eq rfl ?_
    cases hhead : Node.headOf nodes with
    | none => rw [List.filterMap_cons_none hhead, optional_none, zero_add]
    | some head => rw [List.filterMap_cons_some hhead, optional_some, Multiset.singleton_add]; rfl

end Rooted

/-- The cells of each frame are among those outside of the chain that is being read. -/
theorem Reader.has_layout {s : Cells} {frames : List Frame} {statements : List (List Node)}
    (hs : s.Has (Reader.outside frames statements)) {frame : Frame} (hframe : frame ∈ frames) :
    s.Has frame.layout := by
  obtain ⟨before, after, rfl⟩ := List.append_of_mem hframe
  simp only [outside, List.map_append, List.map_cons, List.sum_append, List.sum_cons,
    BlockStore.has_add] at hs
  exact hs.1.2.1

namespace Builder.Laid

variable {base : Layout} {b : Builder}

/-- The chain that is being read is stored. -/
theorem exists_chain (h : b.Laid base) {strand : Strand} (hstrand : b.chain = some strand) :
    ∃ items m, strand? items = some strand ∧
      b.cells.Contains (chained none items.reverse + m) := by
  cases h with | of frames chain statements _ hs _ hchain
  exact ⟨chain, _, hchain.symm.trans hstrand, hs.of_eq (add_left_comm ..)⟩

/-- A chain that can still grow is stored. -/
theorem exists_items (h : b.Laid base) {strand : Strand} (hstrand : strand ∈ b.strands) :
    ∃ items, strand? items = some strand ∧ b.cells.Has (chained none items.reverse) := by
  cases h with | @of loose _ frames chain statements _ hs hframes hchain
  obtain ⟨-, hchained, houtside⟩ : b.cells.Has (loose + base) ∧
      b.cells.Has (chained none chain.reverse) ∧
      b.cells.Has (Reader.outside frames statements) := by
    simpa only [BlockStore.has_add] using hs.has
  unfold strands at hstrand
  rw [hframes, hchain, List.flatMap_map] at hstrand
  rcases List.mem_append.1 hstrand with hown | hother
  · exact ⟨chain, Option.mem_toList.1 hown, hchained⟩
  · obtain ⟨frame, hframe, hmem⟩ := List.mem_flatMap.1 hother
    obtain ⟨houter, hbody⟩ := BlockStore.has_add.1 (Reader.has_layout houtside hframe)
    rcases List.mem_append.1 hmem with hmem | hmem
    · exact ⟨frame.outer, Option.mem_toList.1 hmem, houter⟩
    · exact ⟨frame.body.map .tree, Option.mem_toList.1 hmem, hbody⟩

/-- What is stored beside a forest is in order. -/
theorem orderly {t : Cells} (h : b.Laid base) (ht : t.Contains base) (hforest : t.IsForest) :
    b.Orderly := by
  have hbforest : b.cells.IsForest := by
    cases h with | of frames chain statements hloose hs
    obtain ⟨roots', hchain⟩ := Rooted.exists_chained chain.reverse
    obtain ⟨roots'', houtside⟩ := Rooted.exists_outside frames statements
    exact Cells.isForest_of_contains ht hforest (hs.of_eq (by ac_rfl))
      (hloose.add (hchain.add houtside))
  have hsound : b.cells.Sound := by
    cases h with | of _ _ _ _ hs => exact hs.sound
  constructor
  · exact hbforest
  · intro h hh
    exact hbforest.walks_chain hsound hh
  · intro strand hstrand
    obtain ⟨items, hitems, hs⟩ := h.exists_items hstrand
    exact Cells.ends_of_strand? hs hitems
  · intro strand hchain
    obtain ⟨items, m, hitems, hs⟩ := h.exists_chain hchain
    exact Cells.foldsDown hs (headOr_of_strand? hitems)

end Builder.Laid

/-! ### What is Stored at each Stage -/

namespace Reader

open Builder (Laid)

variable {r : Reader} {base : Layout} {cells : Cells} {t : Token} {item : Item}

theorem Stored.laid (h : r.Stored base cells) : Laid base (r.stored cells) :=
  .of r.frames r.chain r.statements .empty (h.contents.of_eq (by rw [zero_add])) rfl rfl

/-- What follows a builder that mirrors a reader. -/
theorem Mirrored.laid_following {x : Except Stop Builder} {y : Except Error Reader}
    {stages : Builder → List Builder} (h : Mirrored base x y)
    (hnext : ∀ (r : Reader) (cells : Cells), y = .ok r → r.Stored base cells →
      ∀ b ∈ stages (r.stored cells), Laid base b) :
    ∀ b ∈ Builder.following x stages, Laid base b := by
  cases h with
  | ok hr => exact hnext _ _ rfl hr
  | error stop => simp [Builder.following]

theorem Keeps.laid_pushStages (h : r.Keeps (item.parts + base) cells)
    (hitem : item.handle = ⟨r.count⟩) :
    ∀ b ∈ (r.stored cells).pushStages (item.cell none), Laid base b := by
  have hparts : Rooted item.parts ((item.cell none).targets + 0) :=
    (Rooted.empty.itemParts item).of_eq (add_zero _).symm rfl
  have hbare := h.contents.push (.plain (item.cell none).token (item.cell none).kind)
  have hwhole := h.contents.push (item.cell none)
  obtain ⟨cells', hb, hstored⟩ := (h.push hitem).stored
  -- Until it is linked, the new cell is in no chain. At first it does not refer to its parts.
  rintro b (_ | ⟨_, _ | ⟨_, _ | ⟨_, hb'⟩⟩⟩)
  · exact .of r.frames r.chain r.statements (hparts.plain ..) (hbare.of_eq (by ac_rfl)) rfl rfl
  · exact .of r.frames r.chain r.statements (.cell hparts) (hwhole.of_eq (by ac_rfl)) rfl rfl
  · rw [hb]
    exact hstored.laid
  · cases hb'

theorem Keeps.laid_foldStages {strand : Strand} (h : r.Keeps base cells)
    (hchain : strand? r.chain = some strand) :
    ∀ b ∈ (r.stored cells).foldStages strand, Laid base b := by
  intro b hb
  obtain ⟨limit, -, rfl⟩ := List.mem_map.1 hb
  obtain ⟨items, hs, -⟩ := Cells.foldFrom_chained limit (h.contents.of_eq (add_left_comm ..))
    (headOr_of_strand? hchain)
  -- The builder has given the chain up, so what is left of it is loose.
  refine .of r.frames [] r.statements (Rooted.empty.chainedItems items) (hs.of_eq ?_) rfl rfl
  rw [List.reverse_nil, chained]
  ac_rfl

theorem Keeps.laid_endStatementStages (h : r.Keeps base cells) (hchain : r.chain ≠ [])
    (hterminator : r.terminator = .semicolon) (line : Nat) :
    ∀ b ∈ (r.stored cells).endStatementStages line, Laid base b := by
  obtain ⟨strand, hstrand⟩ := Option.isSome_iff_exists.1 ((strand?_isSome _).2 hchain)
  have hstored : (r.stored cells).chain = some strand := hstrand
  unfold Builder.endStatementStages
  rw [hstored]
  refine List.forall_mem_append.2 ⟨h.laid_foldStages hstrand, ?_⟩
  refine (h.endStatement hchain hterminator line).laid_following fun r' cells' _ hr' => ?_
  simpa using hr'.laid

theorem Keeps.folded {strand : Strand} {line : Nat} {folded : Cells × Handle}
    (h : r.Keeps base cells) (hchain : strand? r.chain = some strand)
    (hfold : (r.stored cells).foldChain line strand = .ok folded) :
    ∃ nodes, folded.1.Contains (Node.chained nodes + (base + outside r.frames r.statements)) ∧
      folded.1.size = cells.size ∧ Node.headOf nodes = some folded.2 := by
  have hfolded := Cells.fold_folded (h.contents.of_eq (add_left_comm ..)) (headOr_of_strand? hchain)
  unfold Builder.foldChain at hfold
  rw [show (r.stored cells).cells = cells from rfl] at hfold
  generalize cells.fold strand.head = folded' at hfolded hfold
  generalize resolve r.chain.reverse = resolved at hfolded
  cases hfolded with
  | @ok _ _ nodes hs hsize hhead =>
    cases hfold
    exact ⟨nodes, hs, hsize, hhead⟩
  | error => cases hfold

theorem Stored.laid_closeStages {frame : Frame} {frames : List Frame} {strand : Strand}
    (h : r.Stored base cells) (hframes : r.frames = frame :: frames)
    (hbracket : frame.bracket ≠ .brace) (hchain : strand? r.chain = some strand) (line : Nat) :
    ∀ b ∈ (r.stored cells).closeStages line strand (strand? frame.outer)
      (frames.map Frame.stored) (frame.bracket.cell frame.opener), Laid base b := by
  refine List.forall_mem_append.2 ⟨h.laid_foldStages hchain, ?_⟩
  cases hfold : (r.stored cells).foldChain line strand with
  | error stop => simp [Builder.following]
  | ok folded =>
    obtain ⟨nodes, hs, hsize, hhead⟩ := h.folded hchain hfold
    have hkeeps := h.outerChain hframes hbracket hs hsize
    rw [← frame.bracket.parts_item (r.origin frame.opener)] at hkeeps
    have hlaid := hkeeps.laid_pushStages (frame.bracket.handle_item _ nodes)
    rw [frame.bracket.cell_item _ hhead] at hlaid
    exact hlaid

theorem Stored.laid_endChainStages (h : r.Stored base cells) :
    ∀ b ∈ (r.stored cells).endChainStages t, Laid base b := by
  have hchainStored : (r.stored cells).chain = strand? r.chain := rfl
  unfold Builder.endChainStages
  cases hstrand : strand? r.chain with
  | none =>
    rw [hchainStored, hstrand]
    simp
  | some strand =>
    have hchain : r.chain ≠ [] := (strand?_isSome _).1 (by rw [hstrand]; rfl)
    rw [hchainStored, hstrand]
    cases hframes : r.frames with
    | nil =>
      rw [frames_stored, hframes]
      exact h.laid_endStatementStages hchain (terminator_of_nil hframes) t.line
    | cons frame frames =>
      rw [frames_stored, hframes]
      obtain ⟨bracket, opener, outer, body⟩ := frame
      cases bracket with
      | paren | square => exact h.laid_closeStages hframes (by simp) hstrand t.line
      | brace =>
        exact h.laid_endStatementStages hchain (by rw [terminator, hframes]; rfl) t.line

theorem Stored.laid_pushStages {kind : Cell.Kind} (h : r.Stored base cells) (item : Item)
    (hitem : item.handle = ⟨r.count⟩) (hcell : item.cell none = .plain t kind)
    (hparts : item.parts = 0) : ∀ b ∈ (r.stored cells).pushStages (.plain t kind), Laid base b := by
  rw [← hcell]
  refine Keeps.laid_pushStages ?_ hitem
  rw [hparts, zero_add]
  exact h.toKeeps

theorem Stored.laid_endScriptStages (h : r.Stored base cells) :
    ∀ b ∈ (r.stored cells).endScriptStages t, Laid base b := by
  unfold Builder.endScriptStages
  cases hframes : r.frames with
  | cons frame frames =>
    rw [frames_stored, hframes]
    simp
  | nil =>
    have hend : (Item.tree (.scriptEnd (r.origin t))).parts = 0 := by
      rw [Item.parts_tree, Node.parts]
    obtain ⟨cells', hbuilder, hstored⟩ := h.pushEnd t
    rw [frames_stored, hframes]
    show ∀ b ∈ Builder.pushStages _ _ ++ Builder.endStatementStages _ _, Laid base b
    rw [hbuilder]
    refine List.forall_mem_append.2 ⟨h.laid_pushStages _ rfl rfl hend, ?_⟩
    exact hstored.laid_endStatementStages (by simp [Reader.push]) (terminator_of_nil hframes) t.line

/-- A token that makes a cell alone makes an item without parts. -/
theorem exists_item {kind : Cell.Kind} (hkind : Builder.kindOf? t.kind = some kind) (r : Reader) :
    ∃ item : Item, item.handle = ⟨r.count⟩ ∧ item.cell none = .plain t kind ∧ item.parts = 0 := by
  cases hk : t.kind <;> rw [hk] at hkind <;> cases hkind
  case name => exact ⟨.tree (.name (r.origin t)), rfl, rfl, by rw [Item.parts_tree, Node.parts]⟩
  case integer =>
    exact ⟨.tree (.integer (r.origin t)), rfl, rfl, by rw [Item.parts_tree, Node.parts]⟩
  case ifWord | elseWord | whileWord =>
    exact ⟨.tree (.control (r.origin t) _), rfl, rfl, by rw [Item.parts_tree, Node.parts]⟩
  case dot | plus | minus | star | slash => exact ⟨.operator (r.origin t) _, rfl, rfl, rfl⟩

theorem Stored.laid_readItemStages (h : r.Stored base cells) :
    ∀ b ∈ (r.stored cells).readItemStages t, Laid base b := by
  unfold Builder.readItemStages
  cases hkind : Builder.kindOf? t.kind with
  | some kind =>
    obtain ⟨item, hitem, hcell, hparts⟩ := exists_item hkind r
    exact h.laid_pushStages item hitem hcell hparts
  | none =>
    dsimp only
    split
    · exact h.laid_endScriptStages
    · simp

theorem Stored.laid_closeBlockStages {frame : Frame} {frames : List Frame}
    (h : r.Stored base cells) (hframes : r.frames = frame :: frames) (hchain : r.chain = []) :
    ∀ b ∈ (r.stored cells).closeBlockStages frame.stored (frames.map Frame.stored),
      Laid base b := by
  have hkeeps := h.outerBlock hframes hchain
  rw [← Bracket.brace.parts_item (r.origin frame.opener)] at hkeeps
  have hlaid := hkeeps.laid_pushStages (Bracket.brace.handle_item _ _)
  have hcell : (Bracket.brace.item (r.origin frame.opener) frame.body.reverse).cell none = _ :=
    cell_block frame r.count
  rw [hcell] at hlaid
  exact hlaid

theorem Stored.laid_readTokenStages (h : r.Stored base cells) :
    ∀ b ∈ (r.stored cells).readTokenStages t, Laid base b := by
  unfold Builder.readTokenStages
  rw [closable?_stored]
  split
  · exact h.laid_endChainStages
  · split
    · cases hclosable : r.closable? with
      | none => simp
      | some closed =>
        obtain ⟨frame, frames⟩ := closed
        obtain ⟨hframes, -, -, hchain⟩ := closable?_eq_some_iff.1 hclosable
        exact h.laid_closeBlockStages hframes hchain
    · exact h.laid_readItemStages

theorem Stored.laid_structHeadStages (h : r.Stored base cells) (word name : Token) :
    ∀ b ∈ (r.stored cells).structHeadStages word name, Laid base b := by
  have hname := h.contents.push (.plain name .name)
  have hlaid := (h.named word name).laid_pushStages rfl
  rw [h.cell_structHead] at hlaid
  refine List.forall_mem_cons.2 ⟨?_, hlaid⟩
  exact .of r.frames r.chain r.statements (Rooted.empty.plain ..) (hname.of_eq (by ac_rfl)) rfl rfl

theorem Stored.laid_readStages (h : r.Stored base cells) :
    ∀ b ∈ (r.stored cells).readStages t, Laid base b := by
  have hpending : (r.stored cells).pending = r.pending := rfl
  unfold Builder.readStages
  rw [hpending]
  cases hp : r.pending with
  | nothing => exact h.laid_readTokenStages
  | structName word =>
    dsimp only
    split
    · exact h.laid_structHeadStages word t
    · simp
  | equals sign =>
    dsimp only
    split
    · exact h.laid_pushStages (.operator (r.origin _) .compare) rfl rfl rfl
    · obtain ⟨cells', hbuilder, hstored⟩ := Mirrored.stored (h.pushOperator (t := sign) .assign)
      rw [hbuilder]
      refine List.forall_mem_append.2 ⟨?_, hstored.laid_readTokenStages⟩
      exact h.laid_pushStages (.operator (r.origin _) .assign) rfl rfl rfl
  | blockEnd line =>
    obtain ⟨hchain, hterminator⟩ := h.ended line hp
    dsimp only
    split
    · exact h.laid_endStatementStages hchain hterminator t.line
    · refine List.forall_mem_append.2 ⟨h.laid_endStatementStages hchain hterminator line, ?_⟩
      exact (h.endStatement hchain hterminator line).laid_following fun _ _ _ hstored =>
        hstored.laid_readTokenStages

/-- At all stages of reading tokens, chains are stored beside the cells that were there before. -/
theorem Stored.laid_stages (h : r.Stored base cells) (ts : List Token) :
    ∀ b ∈ (r.stored cells).stages ts, Laid base b := by
  induction ts generalizing r cells with
  | nil =>
    rw [Builder.stages]
    simpa using h.laid
  | cons t ts ih =>
    rw [Builder.stages, List.forall_mem_cons, List.forall_mem_append]
    exact ⟨h.laid, h.laid_readStages, h.read.laid_following fun _ _ _ hstored => ih hstored⟩

/-! ### Finished Sources -/

/-- Behind the end of the source no chain and no delimiter is left. -/
theorem finished_of_read {r' : Reader} (ht : t.kind = .endOfInput) (h : r.read t = .ok r') :
    r'.frames = [] ∧ r'.chain = [] := by
  have htoken {u : Reader} (hu : u.readToken t = .ok r') : r'.frames = [] ∧ r'.chain = [] := by
    have hopener (bracket : Bracket) : Token.Kind.endOfInput ≠ bracket.opener := by
      cases bracket <;> simp [Bracket.opener]
    have hterminator (bracket : Bracket) : Token.Kind.endOfInput ≠ bracket.terminator := by
      cases bracket <;> simp [Bracket.terminator]
    cases readToken_eq_ok_iff.1 hu with
    | word hitem => simp [ht, itemOfKind] at hitem
    | equals hkind | structWord hkind | semicolon _ hkind | closeBlock _ hkind => simp [ht] at hkind
    | enter bracket hkind => exact absurd (ht.symm.trans hkind) (hopener bracket)
    | @leave bracket _ _ _ _ _ _ _ hkind =>
      exact absurd (ht.symm.trans hkind) (hterminator bracket)
    | endOfInput => exact ⟨rfl, rfl⟩
  -- Whatever the reader has waited for is settled first.
  unfold Reader.read at h
  split at h
  · exact htoken h
  · simp [ht] at h
  · rw [if_neg (by simp [ht])] at h
    obtain ⟨u, -, hu⟩ := bind_eq_ok.1 h
    exact htoken hu
  · rw [if_neg (by simp [ht])] at h
    obtain ⟨u, -, hu⟩ := bind_eq_ok.1 h
    exact htoken hu

/-- Every new cell of finished statements is reached from their heads along exactly one path. -/
theorem Stored.existsUnique_path {s : Cells} (h : r.Stored base cells) (hs : s.Contains base)
    (hframes : r.frames = []) (hchain : r.chain = []) {u : Handle} (hu : u ∈ cells.places)
    (hnew : u ∉ s.places) :
    ∃! p : Nat × List Link,
      (r.stored cells).statements.reverse[p.1]?.bind (cells.follow · p.2) = some u := by
  have hcontents : cells.Contains (base + (r.statements.map Node.chained).sum) := by
    refine h.contents.of_eq ?_
    rw [hchain, hframes, outside, List.reverse_nil, chained, List.map_nil, List.sum_nil, zero_add,
      zero_add]
  have hroots : Rooted (r.statements.map Node.chained).sum
      ((r.stored cells).statements.reverse : List Handle) :=
    (Rooted.ofStatements r.statements).of_eq rfl (Multiset.coe_reverse _)
  have hnodup := Cells.nodup_handles hcontents
  rw [Multiset.map_add, Multiset.nodup_add] at hnodup
  refine hroots.existsUnique_path (BlockStore.has_add.1 hcontents.has).2 hnodup.2.1 ?_
  -- A place that is new is not one of those before.
  have hplace := (Cells.mem_handles_iff hcontents).2 hu
  rw [Multiset.map_add, Multiset.mem_add] at hplace
  exact hplace.resolve_left fun hold => hnew ((Cells.mem_handles_iff hs).1 hold)

end Reader

namespace Cells

open Builder (stages start)

theorem isForest_empty : IsForest .empty where
  within hh := absurd hh (Nat.not_lt_zero _)
  once hh := absurd hh (Nat.not_lt_zero _)
  acyclic hh := absurd hh (Nat.not_lt_zero _)

theorem read_fst (cells : Cells) (scan : Token.Scan) :
    (read cells scan).1 = Stop.left Builder.cells ((start cells).readAll scan.tokens) := by
  unfold read
  cases (start cells).readAll scan.tokens with
  | error stop => rfl
  | ok b => cases scan.failure <;> rfl

theorem read_eq_ok {cells : Cells} {scan : Token.Scan} {script : Script}
    (h : (read cells scan).2 = .ok script) :
    ∃ b, (start cells).readAll scan.tokens = .ok b ∧ scan.failure = none ∧ b.script = script := by
  unfold read at h
  cases hread : (start cells).readAll scan.tokens with
  | error stop =>
    rw [hread] at h
    cases h
  | ok b =>
    rw [hread] at h
    cases hfailure : scan.failure with
    | some e =>
      rw [hfailure] at h
      cases h
    | none =>
      rw [hfailure] at h
      exact ⟨b, rfl, rfl, Except.ok.inj h⟩

/-- A source that is read to its end leaves new cells that are reached along exactly one path. -/
theorem existsUnique_path_of_read {cells : Cells} {base : Layout} (hs : cells.Contains base)
    {source : String} {b : Builder}
    (hread : (start cells).readAll (Token.scan source).tokens = .ok b)
    (hfailure : (Token.scan source).failure = none) {h : Handle} (hh : h ∈ b.cells.places)
    (hnew : h ∉ cells.places) :
    ∃! p : Nat × List Link, b.statements.reverse[p.1]?.bind (b.cells.follow · p.2) = some h := by
  obtain ⟨ts, e, hts, he, -⟩ := Token.isLexeme_of_scanFrom _ _ _ hfailure
  have htokens : (Token.scan source).tokens = ts ++ [e] := hts
  have hmirrored := (Reader.stored_start_of_contains hs).readAll (Token.scan source).tokens
  rw [show (Reader.start cells.size).stored cells = start cells from rfl, hread] at hmirrored
  rcases hreader : (Reader.start cells.size).readAll (Token.scan source).tokens with ⟨r, _ | err⟩
  · rw [hreader] at hmirrored
    obtain ⟨cells', rfl, hstored⟩ := Reader.Mirrored.stored hmirrored
    rw [htokens] at hreader
    obtain ⟨u, -, hlast⟩ := Reader.readAll_append.1 hreader
    obtain ⟨v, hv, hlast⟩ := Reader.readAll_cons_eq_none.1 hlast
    cases hlast
    obtain ⟨hframes, hchain⟩ := Reader.finished_of_read he hv
    exact hstored.existsUnique_path hs hframes hchain hh hnew
  · rw [hreader] at hmirrored
    cases hmirrored

/-- **Main theorem.** A source is read into a forest of cells. The stages of reading it leave no
    change out, and at each of them the cells are in order. So the cells that are left are a
    forest, also when the source cannot be read. When it can be read, every new cell is reached
    from the heads of the statements along exactly one path. -/
theorem orderly_throughout {cells : Cells} (hsound : cells.Sound) (hforest : cells.IsForest)
    (source : String) :
    Course cells ((start cells).stages (Token.scan source).tokens)
      (read cells (Token.scan source)).1 ∧
    (∀ b ∈ (start cells).stages (Token.scan source).tokens, b.Orderly) ∧
    (read cells (Token.scan source)).1.IsForest ∧
    ∀ script, (read cells (Token.scan source)).2 = .ok script →
      ∃ b, (start cells).readAll (Token.scan source).tokens = .ok b ∧ b.script = script ∧
        b.cells = (read cells (Token.scan source)).1 ∧
        ∀ h ∈ b.cells.places, h ∉ cells.places → ∃! p : Nat × List Link,
          b.statements.reverse[p.1]?.bind (b.cells.follow · p.2) = some h := by
  obtain ⟨base, hs⟩ := hsound.exists_contains
  have hcourse := Builder.course_stages (start cells) (Token.scan source).tokens
  rw [← read_fst] at hcourse
  have horderly : ∀ b ∈ (start cells).stages (Token.scan source).tokens, b.Orderly := by
    intro b hb
    exact ((Reader.stored_start_of_contains hs).laid_stages _ b hb).orderly hs hforest
  refine ⟨hcourse, horderly, ?_, fun script hscript => ?_⟩
  · rcases hcourse.exists_stage with heq | ⟨b, hb, heq⟩
    · rw [heq]
      exact hforest
    · rw [← heq]
      exact (horderly b hb).forest
  · obtain ⟨b, hread, hfailure, rfl⟩ := read_eq_ok hscript
    refine ⟨b, hread, rfl, ?_, fun h hh hnew => existsUnique_path_of_read hs hread hfailure hh hnew⟩
    rw [read_fst, hread]
    rfl

/-- An operator that binds tighter than the one in front of it. -/
def sumOfProduct : String := "a + b * c"

/-- The cells are in order at all stages, also behind those of a source that cannot be read. The
    last operand is reached by two links, and in no other way. -/
theorem sumOfProduct_orderly :
    (∀ b ∈ (start (read .empty (Token.scan "(a + ;")).1).stages (Token.scan sumOfProduct).tokens,
      b.Orderly) ∧
    ∃ b, (start .empty).readAll (Token.scan sumOfProduct).tokens = .ok b ∧
      ∀ p : Nat × List Link, b.statements.reverse[p.1]?.bind (b.cells.follow · p.2) = some ⟨4⟩ ↔
        p = (0, [.second, .second]) := by
  have hempty := orderly_throughout BlockStore.sound_empty isForest_empty
  have hfailed : (read .empty (Token.scan "(a + ;")).1.IsForest := (hempty _).2.2.1
  refine ⟨(orderly_throughout (read_empty _).2 hfailed sumOfProduct).2.1, ?_⟩
  have hread : ((read .empty (Token.scan sumOfProduct)).2.toOption.isSome) = true := by
    decide +kernel
  have hfound : ((start .empty).readAll (Token.scan sumOfProduct).tokens).toOption.any (fun b =>
      4 < b.cells.size ∧
        b.statements.reverse[0]?.bind (b.cells.follow · [.second, .second]) = some ⟨4⟩) = true := by
    decide +kernel
  cases hscript : (read .empty (Token.scan sumOfProduct)).2 with
  | error e =>
    rw [hscript] at hread
    cases hread
  | ok script =>
    obtain ⟨b, hb, -, -, hunique⟩ := (hempty sumOfProduct).2.2.2 script hscript
    rw [hb] at hfound
    obtain ⟨hsize, hpath⟩ := of_decide_eq_true hfound
    refine ⟨b, hb, fun p => ⟨fun hp => ?_, fun hp => hp ▸ hpath⟩⟩
    exact (hunique ⟨4⟩ hsize (Nat.not_lt_zero _)).unique hp hpath

end Cells

end ByteBricks.Syntax
