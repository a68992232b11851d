import ByteBricks.Proofs.Syntax.Chain
import ByteBricks.Syntax.Reader

/-! # Reading Relabelled Tokens

  The reader looks at the kinds of its tokens. It keeps their texts and lines, and numbers
  the trees that it makes of them, but decides nothing by these. Main statement: of
  relabelled tokens it makes the relabelled trees, and it fails where it did, with a
  relabelled error. The one thing it asks of the places of its tokens is whether two equals
  signs touch, and make a comparison. -/

namespace ByteBricks

section Bimap

variable {ε ε' α β γ δ : Type} {f : ε → ε'} {g : α → β} {h : γ → δ}

/-- What a computation gives and what stops it, both changed. -/
def bimap (f : ε → ε') (g : α → β) : Except ε α → Except ε' β
  | .ok a => .ok (g a)
  | .error e => .error (f e)

theorem bimap_bind {x : Except ε α} {y : Except ε' β} {k : α → Except ε γ}
    {k' : β → Except ε' δ} (hx : y = bimap f g x) (hk : ∀ a, k' (g a) = bimap f h (k a)) :
    (y >>= k') = bimap f h (x >>= k) := by
  subst hx
  cases x with
  | ok a => exact hk a
  | error e => rfl

theorem bimap_foldlM {ι : Type} {step : α → ι → Except ε α} {step' : β → ι → Except ε' β}
    (hstep : ∀ a i, step' (g a) i = bimap f g (step a i)) (is : List ι) (a : α) :
    is.foldlM step' (g a) = bimap f g (is.foldlM step a) := by
  induction is generalizing a with
  | nil => rfl
  | cons i is ih =>
    rw [List.foldlM_cons, List.foldlM_cons]
    exact bimap_bind (hstep a i) ih

end Bimap

namespace Syntax

/-! ### Relabelled Trees -/

/-- A change of tokens, lines and numbers of trees that the reader takes no notice of. -/
structure Relabelling where
  /-- The token that stands for a token. -/
  token : Token → Token
  /-- The line that stands for a line. -/
  line : Nat → Nat
  /-- The number of the tree that stands for the tree of a number. -/
  number : Nat → Nat
  /-- Tokens keep their kinds. -/
  kind_token : ∀ t, (token t).kind = t.kind
  /-- The lines of tokens change like all others. -/
  line_token : ∀ t, (token t).line = line t.line
  /-- Two tokens that make a comparison still make the same one. -/
  token_comparison : ∀ t u,
    token (Reader.comparisonToken t u) = Reader.comparisonToken (token t) (token u)
  /-- Trees are still numbered one after the other. -/
  number_succ : ∀ n, number (n + 1) = number n + 1

/-- The origin of the relabelled tree. -/
def Origin.relabel (f : Relabelling) (o : Origin) : Origin := ⟨f.number o.id, f.token o.token⟩

mutual

/-- The tree of the relabelled tokens. -/
def Node.relabel (f : Relabelling) : Node → Node
  | .name o => .name (o.relabel f)
  | .integer o => .integer (o.relabel f)
  | .control o word => .control (o.relabel f) word
  | .structHead o n => .structHead (o.relabel f) (n.relabel f)
  | .paren o inner => .paren (o.relabel f) (Node.relabelAll f inner)
  | .block o body => .block (o.relabel f) (Node.relabelAll f body)
  | .element o base index =>
    .element (o.relabel f) (base.relabel f) (Node.relabelAll f index)
  | .binary o op lhs rhs => .binary (o.relabel f) op (lhs.relabel f) (rhs.relabel f)
  | .scriptEnd o => .scriptEnd (o.relabel f)

/-- The trees of the relabelled tokens. -/
def Node.relabelAll (f : Relabelling) : List Node → List Node
  | [] => []
  | n :: rest => n.relabel f :: Node.relabelAll f rest

end

/-- The item of the relabelled tokens. -/
def Item.relabel (f : Relabelling) : Item → Item
  | .tree n => .tree (n.relabel f)
  | .operator o op => .operator (o.relabel f) op
  | .subscript o index => .subscript (o.relabel f) (Node.relabelAll f index)

variable {f : Relabelling}

theorem Node.relabelAll_eq_map (ns : List Node) :
    Node.relabelAll f ns = ns.map (Node.relabel f) := by
  induction ns with
  | nil => rfl
  | cons n ns ih => rw [Node.relabelAll, ih, List.map_cons]

@[simp] theorem Node.isOperand_relabel (n : Node) : (n.relabel f).isOperand = n.isOperand := by
  cases n <;> simp [Node.relabel, Node.isOperand]

@[simp] theorem Node.token_relabel (n : Node) : (n.relabel f).token = f.token n.token := by
  cases n <;> simp only [Node.relabel, Node.token, Node.origin, Origin.relabel]

/-! ### Chains -/

/-- Items that do not begin with a tree do not begin with one when they are relabelled. -/
theorem Item.relabel_ne_tree {items : List Item}
    (h : ∀ n rest, items = .tree n :: rest → False) (n : Node) (rest : List Item) :
    items.map (Item.relabel f) = .tree n :: rest → False := by
  intro hitems
  rcases items with _ | ⟨_ | _ | _, items⟩
  · simp at hitems
  · exact h _ _ rfl
  · simp [Item.relabel] at hitems
  · simp [Item.relabel] at hitems

/-- An operator takes the same operands, or lacks one, whatever the labels are. -/
theorem resolveLevel_relabel (level : Nat) (before items : List Item) :
    resolveLevel level (before.map (Item.relabel f)) (items.map (Item.relabel f)) =
      bimap f.token (List.map (Item.relabel f)) (resolveLevel level before items) := by
  fun_induction resolveLevel level before items with
  | case1 before =>
    rw [List.map_nil, resolveLevel, ← List.map_reverse]
    rfl
  | case2 before n after ih =>
    rw [List.map_cons, Item.relabel, resolveLevel]
    exact ih
  | case3 o index after hlevel base before hbase ih =>
    rw [List.map_cons, List.map_cons, Item.relabel, Item.relabel, resolveLevel, if_pos hlevel,
      Node.isOperand_relabel, if_pos hbase]
    exact ih
  | case4 o index after hlevel base before hbase =>
    rw [List.map_cons, List.map_cons, Item.relabel, Item.relabel, resolveLevel, if_pos hlevel,
      Node.isOperand_relabel, if_neg hbase]
    rfl
  | case5 before o index after hlevel hbase =>
    -- What stands in front of the index is no tree, so nothing can be indexed.
    rw [List.map_cons, Item.relabel, resolveLevel.eq_def]
    dsimp only
    rw [if_pos hlevel]
    rcases before with _ | ⟨_ | _ | _, before⟩
    · rfl
    · exact (hbase _ _ rfl).elim
    · rfl
    · rfl
  | case6 before o index after hlevel ih =>
    rw [List.map_cons, Item.relabel, resolveLevel.eq_def]
    dsimp only
    rw [if_neg hlevel]
    exact ih
  | case7 o op rhs after hlevel base before hoperands ih =>
    rw [List.map_cons, List.map_cons, List.map_cons, Item.relabel, Item.relabel, Item.relabel,
      resolveLevel, if_pos hlevel, Node.isOperand_relabel, Node.isOperand_relabel,
      if_pos hoperands]
    exact ih
  | case8 o op rhs after hlevel base before hoperands =>
    rw [List.map_cons, List.map_cons, List.map_cons, Item.relabel, Item.relabel, Item.relabel,
      resolveLevel, if_pos hlevel, Node.isOperand_relabel, Node.isOperand_relabel,
      if_neg hoperands]
    rfl
  | case9 before o op rhs after hlevel hbase =>
    rw [List.map_cons, List.map_cons, Item.relabel, Item.relabel, resolveLevel.eq_def]
    dsimp only
    rw [if_pos hlevel]
    rcases before with _ | ⟨_ | _ | _, before⟩
    · rfl
    · exact (hbase _ _ rfl).elim
    · rfl
    · rfl
  | case10 before o op rhs after hlevel ih =>
    rw [List.map_cons, List.map_cons, Item.relabel, Item.relabel, resolveLevel.eq_def]
    dsimp only
    rw [if_neg hlevel]
    exact ih
  | case11 before o op after htree hlevel =>
    rw [List.map_cons, Item.relabel, resolveLevel, if_pos hlevel]
    · rfl
    · exact Item.relabel_ne_tree htree
  | case12 before o op after htree hlevel ih =>
    rw [List.map_cons, Item.relabel, resolveLevel, if_neg hlevel]
    · exact ih
    · exact Item.relabel_ne_tree htree

theorem resolve_relabel (items : List Item) :
    resolve (items.map (Item.relabel f)) =
      bimap f.token (List.map (Node.relabel f)) (resolve items) := by
  unfold resolve
  refine bimap_bind (bimap_foldlM (fun items level => resolveLevel_relabel level [] items)
    levels items) fun items => ?_
  show Except.ok _ = Except.ok _
  rw [List.filterMap_map, List.map_filterMap]
  congr 2
  funext item
  cases item <;> rfl

/-! ### Relabelled States -/

/-- The open delimiter of the relabelled tokens. -/
def Frame.relabel (f : Relabelling) (x : Frame) : Frame :=
  ⟨x.bracket, f.token x.opener, x.outer.map (Item.relabel f), x.body.map (Node.relabel f)⟩

/-- The open question of the relabelled tokens. -/
def Pending.relabel (f : Relabelling) : Pending → Pending
  | .nothing => .nothing
  | .structName word => .structName (f.token word)
  | .equals sign => .equals (f.token sign)
  | .blockEnd line => .blockEnd (f.line line)

/-- The reader of the relabelled tokens, behind other statements, which come first. -/
def Reader.relabel (f : Relabelling) (before : List (List Node)) (r : Reader) : Reader where
  frames := r.frames.map (Frame.relabel f)
  chain := r.chain.map (Item.relabel f)
  statements := r.statements.map (Node.relabelAll f) ++ before
  count := f.number r.count
  pending := r.pending.relabel f

/-- The fault with its line changed. -/
def Fault.mapLine (g : Nat → Nat) : Fault → Fault
  | .unterminatedBlock line => .unterminatedBlock (g line)
  | .unclosed delimiter line => .unclosed delimiter (g line)
  | fault => fault

/-- The error with its lines changed. -/
def Error.mapLine (g : Nat → Nat) (e : Error) : Error := ⟨g e.line, e.fault.mapLine g⟩

/-! ### Steps of the Reader -/

namespace Reader

variable {before : List (List Node)}

@[simp] theorem terminator_relabel (r : Reader) :
    (r.relabel f before).terminator = r.terminator := by
  unfold terminator relabel
  cases r.frames <;> rfl

theorem push_relabel (r : Reader) (item : Item) :
    (r.relabel f before).push (item.relabel f) = (r.push item).relabel f before := by
  unfold push relabel
  dsimp only
  rw [f.number_succ]
  rfl

theorem resolveChain_relabel (r : Reader) (line : Nat) :
    (r.relabel f before).resolveChain (f.line line) =
      bimap (Error.mapLine f.line) (List.map (Node.relabel f)) (r.resolveChain line) := by
  have hchain : (r.relabel f before).chain.reverse = r.chain.reverse.map (Item.relabel f) :=
    (List.map_reverse ..).symm
  unfold resolveChain
  rw [hchain, resolve_relabel]
  cases resolve r.chain.reverse with
  | ok nodes => rfl
  | error t =>
    show Except.error (Error.mk _ (.missingOperand (f.token t).kind)) = _
    rw [f.kind_token]
    rfl

theorem endStatement_relabel (r : Reader) (line : Nat) :
    (r.relabel f before).endStatement (f.line line) =
      bimap (Error.mapLine f.line) (relabel f before) (r.endStatement line) := by
  unfold endStatement
  refine bimap_bind (resolveChain_relabel r line) fun nodes => ?_
  obtain ⟨frames, chain, statements, count, pending⟩ := r
  cases frames with
  | nil =>
    show Except.ok _ = Except.ok _
    rw [← Node.relabelAll_eq_map]
    rfl
  | cons frame frames =>
    show Except.ok _ = Except.ok _
    simp [relabel, Frame.relabel, Pending.relabel]

theorem enter_relabel (r : Reader) (bracket : Bracket) (t : Token) :
    (r.relabel f before).enter bracket (f.token t) =
      bimap (Error.mapLine f.line) (relabel f before) (r.enter bracket t) := by
  unfold enter
  have hlength : (r.relabel f before).frames.length = r.frames.length := List.length_map _
  rw [hlength, f.line_token]
  split <;> rfl

theorem leave_relabel (r : Reader) (outer : List Item) (frames : List Frame) (item : Item) :
    (r.relabel f before).leave (outer.map (Item.relabel f)) (frames.map (Frame.relabel f))
      (item.relabel f) = (r.leave outer frames item).relabel f before := by
  unfold leave
  rw [← push_relabel]
  rfl

theorem closeBlock_relabel (r : Reader) (frame : Frame) (frames : List Frame) (line : Nat) :
    (r.relabel f before).closeBlock (frame.relabel f) (frames.map (Frame.relabel f))
      (f.line line) = (r.closeBlock frame frames line).relabel f before := by
  unfold closeBlock
  dsimp only
  have hnode : Item.tree (.block ((r.relabel f before).origin (frame.relabel f).opener)
      (frame.relabel f).body.reverse) =
      (Item.tree (.block (r.origin frame.opener) frame.body.reverse)).relabel f := by
    rw [Item.relabel, Node.relabel, Node.relabelAll_eq_map, List.map_reverse]
    rfl
  have houter : (frame.relabel f).outer = frame.outer.map (Item.relabel f) := rfl
  rw [hnode, houter, leave_relabel, terminator_relabel]
  split <;> rfl

theorem closable?_relabel (r : Reader) :
    (r.relabel f before).closable? =
      r.closable?.map fun (frame, frames) => (frame.relabel f, frames.map (Frame.relabel f)) := by
  obtain ⟨frames, chain, statements, count, pending⟩ := r
  unfold closable? relabel
  dsimp only
  cases frames with
  | nil => rfl
  | cons frame frames =>
    -- Bodies and chains are not emptied.
    have hcond : ((frame.relabel f).bracket = .brace ∧ (frame.relabel f).body ≠ [] ∧
        chain.map (Item.relabel f) = []) ↔
        (frame.bracket = .brace ∧ frame.body ≠ [] ∧ chain = []) := by
      simp [Frame.relabel]
    show (if _ then _ else _) = Option.map _ (if _ then _ else _)
    by_cases h : frame.bracket = .brace ∧ frame.body ≠ [] ∧ chain = []
    · rw [if_pos h, if_pos (hcond.2 h)]
      rfl
    · rw [if_neg h, if_neg (fun h' => h (hcond.1 h'))]
      rfl

theorem endChain_relabel (r : Reader) (t : Token) :
    (r.relabel f before).endChain (f.token t) =
      bimap (Error.mapLine f.line) (relabel f before) (r.endChain t) := by
  obtain ⟨frames, chain, statements, count, pending⟩ := r
  unfold endChain
  rw [f.line_token, f.kind_token]
  cases chain with
  | nil => rfl
  | cons item chain =>
    rcases frames with _ | ⟨⟨bracket, opener, outer, body⟩, frames⟩
    · exact endStatement_relabel _ t.line
    · cases bracket with
      | brace => exact endStatement_relabel _ t.line
      | paren =>
        refine bimap_bind (resolveChain_relabel _ t.line) fun nodes => ?_
        show Except.ok _ = Except.ok _
        rw [← leave_relabel, Item.relabel, Node.relabel, Node.relabelAll_eq_map]
        rfl
      | square =>
        refine bimap_bind (resolveChain_relabel _ t.line) fun nodes => ?_
        show Except.ok _ = Except.ok _
        rw [← leave_relabel, Item.relabel, Node.relabelAll_eq_map]
        rfl

theorem endScript_relabel (r : Reader) (t : Token) :
    (r.relabel f before).endScript (f.token t) =
      bimap (Error.mapLine f.line) (relabel f before) (r.endScript t) := by
  unfold endScript
  have hframes : (r.relabel f before).frames = r.frames.map (Frame.relabel f) := rfl
  rw [hframes, f.line_token]
  cases r.frames with
  | nil =>
    have hpush : (r.relabel f before).push
        (.tree (.scriptEnd ((r.relabel f before).origin (f.token t)))) =
        (r.push (.tree (.scriptEnd (r.origin t)))).relabel f before := by
      rw [← push_relabel, Item.relabel, Node.relabel]
      rfl
    show ((r.relabel f before).push _).endStatement _ = _
    rw [hpush]
    exact endStatement_relabel _ t.line
  | cons frame frames =>
    rw [List.map_cons]
    dsimp only [Frame.relabel]
    rw [f.line_token, f.kind_token]
    split <;> rfl

theorem pushTree_relabel (r : Reader) (t : Token) {node : Origin → Node}
    (hnode : ∀ o, (node o).relabel f = node (o.relabel f)) :
    (r.relabel f before).pushTree (f.token t) node =
      bimap (Error.mapLine f.line) (relabel f before) (r.pushTree t node) := by
  refine congrArg Except.ok ?_
  rw [← push_relabel, Item.relabel, hnode]
  rfl

theorem pushOperator_relabel (r : Reader) (t : Token) (op : BinaryOp) :
    (r.relabel f before).pushOperator (f.token t) op =
      bimap (Error.mapLine f.line) (relabel f before) (r.pushOperator t op) := by
  refine congrArg Except.ok ?_
  rw [← push_relabel, Item.relabel]
  rfl

theorem pushStructHead_relabel (r : Reader) (word name : Token) :
    (r.relabel f before).pushStructHead (f.token word) (f.token name) =
      (r.pushStructHead word name).relabel f before := by
  unfold pushStructHead
  rw [← push_relabel, Item.relabel, Node.relabel, Origin.relabel, Origin.relabel]
  unfold relabel
  dsimp only
  rw [f.number_succ]

theorem readItem_relabel (r : Reader) (t : Token) :
    (r.relabel f before).readItem (f.token t) =
      bimap (Error.mapLine f.line) (relabel f before) (r.readItem t) := by
  unfold readItem
  rw [f.kind_token, f.line_token]
  cases t.kind
  case name | integer | ifWord | elseWord | whileWord =>
    exact pushTree_relabel r t fun _ => by rw [Node.relabel]
  case dot | plus | minus | star | slash => exact pushOperator_relabel r t _
  case openParen | openBracket | openBrace => exact enter_relabel r _ t
  case endOfInput => exact endScript_relabel r t
  all_goals rfl

/-- A token is read whatever the labels are, when nothing is pending. -/
theorem readToken_relabel (r : Reader) (t : Token) :
    (r.relabel f before).readToken (f.token t) =
      bimap (Error.mapLine f.line) (relabel f before) (r.readToken t) := by
  unfold readToken
  rw [f.kind_token, f.line_token, terminator_relabel, closable?_relabel]
  by_cases hend : t.kind = r.terminator
  · rw [if_pos hend, if_pos hend]
    exact endChain_relabel r t
  rw [if_neg hend, if_neg hend]
  by_cases hclose : t.kind = .closeBrace
  · rw [if_pos hclose, if_pos hclose]
    cases r.closable? with
    | none => rfl
    | some x => exact congrArg Except.ok (closeBlock_relabel r x.1 x.2 t.line)
  · rw [if_neg hclose, if_neg hclose]
    exact readItem_relabel r t

/-! ### Equals Signs -/

/-- Whether the token is the second half of a comparison, of which the first half is pending. -/
def joins (r : Reader) (t : Token) : Bool :=
  match r.pending with
  | .equals sign => t.kind == .equals && t.start == sign.stop
  | _ => false

/-- Reads the next token, if it is known whether it is the second half of a comparison. -/
def readJoined (r : Reader) (joined : Bool) (t : Token) : Except Error Reader :=
  match r.pending with
  | .equals sign =>
    if joined then r.pushOperator (comparisonToken sign t) .compare
    else do (← r.pushOperator sign .assign).readToken t
  | _ => r.read t

/-- The place of a token matters for nothing else. -/
theorem read_eq_readJoined (r : Reader) (t : Token) : r.read t = r.readJoined (r.joins t) t := by
  unfold readJoined joins
  cases hpending : r.pending with
  | equals sign =>
    unfold read
    rw [hpending]
    simp only [Bool.and_eq_true, beq_iff_eq]
  | nothing => rfl
  | structName word => rfl
  | blockEnd line => rfl

/-- **Main theorem.** A token is read whatever the labels are, if it makes a comparison where
    it made one. -/
theorem readJoined_relabel (r : Reader) (joined : Bool) (t : Token) :
    (r.relabel f before).readJoined joined (f.token t) =
      bimap (Error.mapLine f.line) (relabel f before) (r.readJoined joined t) := by
  have hpending : (r.relabel f before).pending = r.pending.relabel f := rfl
  unfold readJoined read
  rw [hpending]
  cases r.pending with
  | nothing => exact readToken_relabel r t
  | structName word =>
    dsimp only [Pending.relabel]
    rw [f.kind_token, f.line_token]
    by_cases hname : t.kind = .name
    · rw [if_pos hname, if_pos hname]
      exact congrArg Except.ok (pushStructHead_relabel r word t)
    · rw [if_neg hname, if_neg hname]
      rfl
  | equals sign =>
    dsimp only [Pending.relabel]
    cases joined with
    | true =>
      -- Both signs make one token, which is relabelled as a whole.
      rw [← f.token_comparison]
      exact pushOperator_relabel r (comparisonToken sign t) .compare
    | false =>
      exact bimap_bind (pushOperator_relabel r sign .assign) fun u => readToken_relabel u t
  | blockEnd line =>
    dsimp only [Pending.relabel]
    rw [f.kind_token, f.line_token]
    by_cases hsemicolon : t.kind = .semicolon
    · rw [if_pos hsemicolon, if_pos hsemicolon]
      exact endStatement_relabel r t.line
    · rw [if_neg hsemicolon, if_neg hsemicolon]
      exact bimap_bind (endStatement_relabel r line) fun u => readToken_relabel u t

end Reader

end Syntax

end ByteBricks
