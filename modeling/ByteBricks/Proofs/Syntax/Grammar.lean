import Mathlib.Data.List.Chain
import ByteBricks.Proofs.Syntax.Precedence
import ByteBricks.Proofs.Syntax.Steps

/-! # The Grammar

  Which tokens form a script, and which trees they form. A derivation counts the trees
  and the open delimiters, so that it tells the numbers of the trees too. The reader
  never goes back, and every derivation leads it through its tokens: where a token only
  settles together with the next one, the next one of a derivation settles it as the
  derivation says. -/

namespace ByteBricks.Syntax

open Reader (comparisonToken)

/-! ### Derivations -/

mutual

/-- The tokens of an item, between how many open delimiters it stands, and how many trees
    have been made before and after it. -/
inductive IsItem : Nat → Nat → List Token → Item → Nat → Prop
  /-- A name, an integer, a keyword of control flow, or an operator of one token. -/
  | word {depth k : Nat} {t : Token} {item : Origin → Item} : itemOfKind t.kind = some item →
      IsItem depth k [t] (item ⟨k, t⟩) (k + 1)
  /-- Two equals signs that touch. -/
  | compare {depth k : Nat} {first second : Token} : first.kind = .equals →
      second.kind = .equals → second.start = first.stop →
      IsItem depth k [first, second] (.operator ⟨k, comparisonToken first second⟩ .compare) (k + 1)
  /-- The keyword `struct` and a name. -/
  | structHead {depth k : Nat} {word name : Token} : word.kind = .structWord → name.kind = .name →
      IsItem depth k [word, name] (.tree (.structHead ⟨k + 1, word⟩ ⟨k, name⟩)) (k + 2)
  /-- Parentheses or brackets around items and blocks. -/
  | group {depth k k' : Nat} {bracket : Bracket} {opener closer : Token} {ts : List Token}
      {items : List Item} {nodes : List Node} : bracket ≠ .brace → depth < maxDepth →
      opener.kind = bracket.opener → closer.kind = bracket.terminator →
      IsItems true (depth + 1) k ts items k' → items ≠ [] → Juxtaposed items nodes →
      IsItem depth k (opener :: (ts ++ [closer])) (bracket.item ⟨k', opener⟩ nodes) (k' + 1)

/-- The tokens of items side by side, and whether blocks may stand between them. -/
inductive IsItems : Bool → Nat → Nat → List Token → List Item → Nat → Prop
  /-- No item. -/
  | nil {blocks : Bool} {depth k : Nat} : IsItems blocks depth k [] [] k
  /-- One more item. -/
  | item {blocks : Bool} {depth k k' k'' : Nat} {ts us : List Token} {items : List Item}
      {item : Item} : IsItems blocks depth k ts items k' → IsItem depth k' us item k'' →
      IsItems blocks depth k (ts ++ us) (items ++ [item]) k''
  /-- A block between items. -/
  | block {depth k k' k'' : Nat} {ts us : List Token} {items : List Item} {node : Node} :
      IsItems true depth k ts items k' → IsBlock depth k' us node k'' →
      IsItems true depth k (ts ++ us) (items ++ [.tree node]) k''

/-- The tokens of a block. -/
inductive IsBlock : Nat → Nat → List Token → Node → Nat → Prop
  /-- Braces around statements. -/
  | braces {depth k k' : Nat} {opener closer : Token} {ts : List Token}
      {statements : List (List Node)} : depth < maxDepth → opener.kind = .openBrace →
      closer.kind = .closeBrace → IsStatements (depth + 1) k ts statements k' →
      statements ≠ [] →
      IsBlock depth k (opener :: (ts ++ [closer])) (.block ⟨k', opener⟩ statements.flatten) (k' + 1)

/-- The tokens of a statement. -/
inductive IsStatement : Nat → Nat → List Token → List Node → Nat → Prop
  /-- Items and a semicolon. -/
  | items {depth k k' : Nat} {ts : List Token} {items : List Item} {nodes : List Node}
      {semicolon : Token} : IsItems false depth k ts items k' → items ≠ [] →
      Juxtaposed items nodes → semicolon.kind = .semicolon →
      IsStatement depth k (ts ++ [semicolon]) nodes k'
  /-- A block behind items. -/
  | block {depth k k' k'' : Nat} {ts us : List Token} {items : List Item} {node : Node}
      {nodes : List Node} : IsItems false depth k ts items k' → IsBlock depth k' us node k'' →
      Juxtaposed (items ++ [.tree node]) nodes → IsStatement depth k (ts ++ us) nodes k''
  /-- A block behind items, and a semicolon. -/
  | blockSemicolon {depth k k' k'' : Nat} {ts us : List Token} {items : List Item} {node : Node}
      {nodes : List Node} {semicolon : Token} : IsItems false depth k ts items k' →
      IsBlock depth k' us node k'' → Juxtaposed (items ++ [.tree node]) nodes →
      semicolon.kind = .semicolon → IsStatement depth k (ts ++ us ++ [semicolon]) nodes k''

/-- The tokens of statements, one behind the other. -/
inductive IsStatements : Nat → Nat → List Token → List (List Node) → Nat → Prop
  /-- No statement. -/
  | nil {depth k : Nat} : IsStatements depth k [] [] k
  /-- One more statement. -/
  | statement {depth k k' k'' : Nat} {ts us : List Token} {statements : List (List Node)}
      {nodes : List Node} : IsStatements depth k ts statements k' →
      IsStatement depth k' us nodes k'' →
      IsStatements depth k (ts ++ us) (statements ++ [nodes]) k''

end

/-- The tokens of a script: statements, items, and the end of the source. -/
inductive IsProgram : List Token → List (List Node) → Nat → Prop
  /-- The items in front of the end form the last chain together with it. -/
  | mk {k k' : Nat} {ts us : List Token} {statements : List (List Node)} {items : List Item}
      {nodes : List Node} {last : Token} : IsStatements 0 0 ts statements k →
      IsItems false 0 k us items k' → last.kind = .endOfInput →
      Juxtaposed (items ++ [.tree (.scriptEnd ⟨k', last⟩)]) nodes →
      IsProgram (ts ++ us ++ [last]) (statements ++ [nodes]) (k' + 1)

/-! ### First Tokens -/

/-- An item begins with an equals sign only if it is an operator. -/
theorem IsItem.first {depth k k' : Nat} {ts : List Token} {item : Item}
    (h : IsItem depth k ts item k') : ∃ t rest, ts = t :: rest ∧ t.kind ≠ .semicolon ∧
      (t.kind = .equals → ∃ o op, item = .operator o op) := by
  cases h with
  | @word _ _ t f hitem =>
    refine ⟨t, [], rfl, ?_, ?_⟩
    · intro hkind
      simp [hkind, itemOfKind] at hitem
    · intro hkind
      rw [hkind] at hitem
      cases hitem
      exact ⟨_, _, rfl⟩
  | compare hfirst hsecond htouch => exact ⟨_, _, rfl, by simp [hfirst], fun _ => ⟨_, _, rfl⟩⟩
  | structHead hword hname => exact ⟨_, _, rfl, by simp [hword], by simp [hword]⟩
  | @group _ _ _ bracket opener _ _ _ _ hbracket _ hopener =>
    refine ⟨_, _, rfl, ?_, ?_⟩ <;> rw [hopener] <;> cases bracket <;> simp [Bracket.opener]

theorem IsBlock.first {depth k k' : Nat} {ts : List Token} {node : Node}
    (h : IsBlock depth k ts node k') : ∃ t rest, ts = t :: rest ∧ t.kind = .openBrace := by
  cases h with
  | braces _ hopener => exact ⟨_, _, rfl, hopener⟩

/-- The tokens in front of an item begin all tokens, or there are none. -/
theorem first_append {ts us : List Token} {items : List Item} {item : Item} {k k' : Nat}
    (hts : (ts = [] ∧ items = [] ∧ k' = k) ∨
      items ≠ [] ∧ ∃ t rest, ts = t :: rest ∧ t.kind ≠ .semicolon)
    (hus : ∃ t rest, us = t :: rest ∧ t.kind ≠ .semicolon) :
    items ++ [item] ≠ [] ∧ ∃ t rest, ts ++ us = t :: rest ∧ t.kind ≠ .semicolon := by
  refine ⟨by simp, ?_⟩
  rcases hts with ⟨rfl, -, -⟩ | ⟨-, t, rest, rfl, ht⟩
  · exact hus
  · exact ⟨t, rest ++ us, rfl, ht⟩

theorem IsItems.first {blocks : Bool} {depth k k' : Nat} {ts : List Token} {items : List Item} :
    IsItems blocks depth k ts items k' → (ts = [] ∧ items = [] ∧ k' = k) ∨
      items ≠ [] ∧ ∃ t rest, ts = t :: rest ∧ t.kind ≠ .semicolon
  | .nil => .inl ⟨rfl, rfl, rfl⟩
  | .item hitems hitem => by
    obtain ⟨t, rest, hus, ht, -⟩ := hitem.first
    exact .inr (first_append hitems.first ⟨t, rest, hus, ht⟩)
  | .block hitems hblock => by
    obtain ⟨t, rest, hus, ht⟩ := hblock.first
    exact .inr (first_append hitems.first ⟨t, rest, hus, by simp [ht]⟩)

theorem IsStatement.first {depth k k' : Nat} {ts : List Token} {nodes : List Node}
    (h : IsStatement depth k ts nodes k') : ∃ t rest, ts = t :: rest ∧ t.kind ≠ .semicolon := by
  have hblock {k k' k'' : Nat} {ts us : List Token} {items : List Item} {node : Node}
      (hitems : IsItems false depth k ts items k') (hblock : IsBlock depth k' us node k'') :
      ∃ t rest, ts ++ us = t :: rest ∧ t.kind ≠ .semicolon := by
    rcases hitems.first with ⟨rfl, -, -⟩ | ⟨-, t, rest, rfl, ht⟩
    · obtain ⟨t, rest, rfl, ht⟩ := hblock.first
      exact ⟨t, rest, rfl, by simp [ht]⟩
    · exact ⟨t, rest ++ us, rfl, ht⟩
  cases h with
  | @items _ _ _ ts _ _ semicolon hitems hne _ _ =>
    rcases hitems.first with ⟨-, hnil, -⟩ | ⟨-, t, rest, rfl, ht⟩
    · exact absurd hnil hne
    · exact ⟨t, rest ++ [semicolon], rfl, ht⟩
  | block hitems hbraces _ => exact hblock hitems hbraces
  | @blockSemicolon _ _ _ _ _ _ _ _ _ semicolon hitems hbraces _ _ =>
    obtain ⟨t, rest, hts, ht⟩ := hblock hitems hbraces
    exact ⟨t, rest ++ [semicolon], by rw [hts]; rfl, ht⟩

/-! ### Separated Operators -/

/-- Whether the item is an operator between two operands. -/
def Item.isBinary : Item → Bool
  | .operator _ _ => true
  | .tree _ | .subscript _ _ => false

/-- No two operators stand side by side. -/
def Separated (items : List Item) : Prop :=
  items.IsChain fun a b => ¬(a.isBinary ∧ b.isBinary)

/-- Whatever stands around the items of a tree, no operator of theirs stands beside it. -/
theorem Node.separated_inOrder (n : Node) (x y : Item) :
    Separated (x :: (n.inOrder ++ [y])) := by
  unfold Separated
  fun_induction Node.inOrder n generalizing x y with
  | case1 o base index ih =>
    rw [List.append_assoc, ← List.cons_append, List.singleton_append, List.isChain_split]
    exact ⟨ih x _, by simp [Item.isBinary]⟩
  | case2 o op lhs rhs ihl ihr =>
    rw [List.append_assoc, List.cons_append, ← List.cons_append, List.isChain_split]
    exact ⟨ihl x _, ihr _ y⟩
  | case3 n helement hbinary => simp [Item.isBinary]

/-- Operators that stand side by side lack operands. -/
theorem Juxtaposed.separated {items : List Item} {nodes : List Node}
    (h : Juxtaposed items nodes) : Separated items := by
  obtain ⟨rfl, -⟩ := h.inOrder
  clear h
  unfold Separated
  induction nodes with
  | nil => simp
  | cons n nodes ih =>
    rw [List.flatMap_cons]
    cases hrest : nodes.flatMap Node.inOrder with
    | nil =>
      have hn := n.separated_inOrder (.tree n) (.tree n)
      rw [List.append_nil]
      exact List.IsChain.left_of_append (List.IsChain.tail hn)
    | cons y rest =>
      rw [hrest] at ih
      have hn := n.separated_inOrder (.tree n) y
      exact List.isChain_split.2 ⟨List.IsChain.tail hn, ih⟩

/-! ### Derived Tokens are Read -/

/-- Whether the token would make a comparison of the equals sign that the item is. -/
def Item.Touches (item : Item) (t : Token) : Prop :=
  ∃ o, item = .operator o .assign ∧ t.kind = .equals ∧ t.start = o.token.stop

theorem Item.not_touches {item : Item} {t : Token} (h : t.kind ≠ .equals) : ¬item.Touches t := by
  rintro ⟨o, -, hkind, -⟩
  exact h hkind

namespace Reader

variable {r u : Reader} {t : Token} {rest : List Token}

/-- The reader behind statements, when `count` trees have been made. -/
def endedAll (r : Reader) (statements : List (List Node)) (count : Nat) : Reader :=
  match r.frames with
  | [] => ⟨[], [], statements.reverse ++ r.statements, count, .nothing⟩
  | frame :: frames =>
    ⟨{ frame with body := statements.flatten.reverse ++ frame.body } :: frames, [], r.statements,
      count, .nothing⟩

theorem endedAll_nil (hchain : r.chain = []) (hr : r.pending = .nothing) :
    r.endedAll [] r.count = r := by
  obtain ⟨frames, chain, statements, count, pending⟩ := r
  cases hchain
  cases hr
  cases frames <;> rfl

theorem ended_endedAll (statements : List (List Node)) (nodes : List Node) (k l : Nat) :
    (r.endedAll statements k).ended nodes l = r.endedAll (statements ++ [nodes]) l := by
  unfold endedAll ended
  cases r.frames <;> simp

@[simp] theorem endedAll_length (statements : List (List Node)) (count : Nat) :
    (r.endedAll statements count).frames.length = r.frames.length := by
  unfold endedAll
  cases r.frames <;> rfl

@[simp] theorem endedAll_terminator (statements : List (List Node)) (count : Nat) :
    (r.endedAll statements count).terminator = r.terminator := by
  unfold endedAll terminator
  cases r.frames <;> rfl

@[simp] theorem endedAll_rest (statements : List (List Node)) (count : Nat) :
    (r.endedAll statements count).chain = [] ∧ (r.endedAll statements count).count = count ∧
      (r.endedAll statements count).pending = .nothing := by
  unfold endedAll
  cases r.frames <;> simp

theorem append_nil (hr : r.pending = .nothing) : r.append [] r.count = r := by
  obtain ⟨frames, chain, statements, count, pending⟩ := r
  cases hr
  rfl

/-- The tokens are read and lead to `v`, if a token behind them settles them with `P`. -/
def Passes (r : Reader) (ts : List Token) (P : Token → Prop) (v : Reader) : Prop :=
  ∀ t rest u, P t → v.readAll (t :: rest) = (u, none) → r.readAll (ts ++ t :: rest) = (u, none)

variable {v w : Reader} {ts us : List Token} {P Q : Token → Prop}

theorem Passes.append (hr : r.Passes ts P v) (hv : v.Passes us Q w)
    (hus : ∃ t rest, us = t :: rest ∧ P t) : r.Passes (ts ++ us) Q w := by
  intro t rest u ht hu
  obtain ⟨first, others, hfirst, hP⟩ := hus
  have hread := hv t rest u ht hu
  rw [hfirst, List.cons_append] at hread
  rw [List.append_assoc, hfirst, List.cons_append]
  exact hr first _ u hP hread

/-- A step that leaves nothing to settle. -/
theorem Passes.step (hr : r.pending = .nothing) (h : Step r t v) : r.Passes [t] (fun _ => True) v :=
  fun _ _ _ _ hu => readAll_cons_eq_none.2 ⟨v, (read_eq_ok_iff hr).2 h, hu⟩

theorem Passes.mono (hr : r.Passes ts P v) (h : ∀ t, Q t → P t) : r.Passes ts Q v :=
  fun t rest u ht hu => hr t rest u (h t ht) hu

/-- The token behind settles what a block leaves open. -/
theorem Passes.settle (hr : r.Passes ts (fun _ => True) v) (hv : v.Passes [] Q w) :
    r.Passes ts Q w :=
  fun t rest u ht hu => hr t rest u trivial (hv t rest u ht hu)

theorem Passes.cons (hr : r.pending = .nothing) (h : Step r t v) (hv : v.Passes ts P w) :
    r.Passes (t :: ts) P w :=
  fun t' rest u ht hu => readAll_cons_eq_none.2 ⟨v, (read_eq_ok_iff hr).2 h, hv t' rest u ht hu⟩

/-- An equals sign is an assignment if no other one touches it. -/
theorem Passes.assign (hr : r.pending = .nothing) (hsign : t.kind = .equals) :
    r.Passes [t] (fun t' => ¬(t'.kind = .equals ∧ t'.start = t.stop))
      (r.append [.operator (r.origin t) .assign] (r.count + 1)) := by
  intro t' rest u ht hu
  obtain ⟨v, hv, hrest⟩ := readAll_cons_eq_none.1 hu
  refine readAll_cons_eq_none.2 ⟨_, (read_eq_ok_iff hr).2 (.equals hsign), ?_⟩
  refine readAll_cons_eq_none.2 ⟨v, ?_, hrest⟩
  unfold read
  dsimp only
  rw [if_neg ht]
  exact hv

/-- Two equals signs that touch are a comparison. -/
theorem Passes.compare {t' : Token} (hr : r.pending = .nothing) (hfirst : t.kind = .equals)
    (hsecond : t'.kind = .equals) (htouch : t'.start = t.stop) :
    r.Passes [t, t'] (fun _ => True)
      (r.append [.operator (r.origin (comparisonToken t t')) .compare] (r.count + 1)) := by
  refine .cons hr (.equals hfirst) fun _ _ _ _ hu => ?_
  exact readAll_cons_eq_none.2 ⟨_, if_pos ⟨hsecond, htouch⟩, hu⟩

theorem Passes.structHead {name : Token} (hr : r.pending = .nothing) (hword : t.kind = .structWord)
    (hname : name.kind = .name) :
    r.Passes [t, name] (fun _ => True)
      (r.append [.tree (.structHead ⟨r.count + 1, t⟩ (r.origin name))] (r.count + 2)) := by
  refine .cons hr (.structWord hword) fun _ _ _ _ hu => ?_
  exact readAll_cons_eq_none.2 ⟨_, if_pos hname, hu⟩

/-- Parentheses and brackets around items. -/
theorem Passes.group {bracket : Bracket} {opener closer : Token} {items : List Item}
    {nodes : List Node} {count : Nat} (hr : r.pending = .nothing) (hbracket : bracket ≠ .brace)
    (hroom : r.frames.length < maxDepth) (hopener : opener.kind = bracket.opener)
    (hcloser : closer.kind = bracket.terminator) (hne : items ≠ [])
    (hnodes : resolve items = .ok nodes)
    (hitems : (r.entered bracket opener).Passes ts (·.kind ≠ .equals)
      ((r.entered bracket opener).append items count)) :
    r.Passes (opener :: (ts ++ [closer])) (fun _ => True)
      (r.append [bracket.item ⟨count, opener⟩ nodes] (count + 1)) := by
  have hchain : ((r.entered bracket opener).append items count).chain = items.reverse :=
    List.append_nil _
  have hleave := Step.leave (r := (r.entered bracket opener).append items count) (t := closer) rfl
    hbracket hcloser (by simpa [hchain] using hne) (by rwa [hchain, List.reverse_reverse])
  refine .cons hr (.enter bracket hopener hroom) (.append hitems (.step rfl hleave) ?_)
  refine ⟨_, _, rfl, ?_⟩
  rw [hcloser]
  cases bracket <;> simp [Bracket.terminator]

/-- The reader behind a block. Between the items of a statement, the next token tells whether
    a semicolon belongs to it. -/
def closed (r : Reader) (node : Node) (count line : Nat) : Reader :=
  if r.terminator = .semicolon then
    { r.append [.tree node] count with pending := .blockEnd line }
  else r.append [.tree node] count

theorem Passes.braces {opener closer : Token} {statements : List (List Node)} {count : Nat}
    (hr : r.pending = .nothing) (hroom : r.frames.length < maxDepth)
    (hopener : opener.kind = .openBrace) (hcloser : closer.kind = .closeBrace)
    (hne : statements.flatten ≠ [])
    (hstatements : (r.entered .brace opener).Passes ts (·.kind ≠ .semicolon)
      ((r.entered .brace opener).endedAll statements count)) :
    r.Passes (opener :: (ts ++ [closer])) (fun _ => True)
      (r.closed (.block ⟨count, opener⟩ statements.flatten) (count + 1) closer.line) := by
  have hclose := Step.closeBlock (r := (r.entered .brace opener).endedAll statements count)
    (t := closer) rfl hcloser (by simpa using hne) rfl
  have hclosed : ((r.entered .brace opener).endedAll statements count).closeBlock
      ⟨.brace, opener, r.chain, statements.flatten.reverse ++ []⟩ r.frames closer.line =
      r.closed (.block ⟨count, opener⟩ statements.flatten) (count + 1) closer.line := by
    unfold closeBlock closed
    rw [List.append_nil, List.reverse_reverse]
    rfl
  refine .cons hr (.enter .brace hopener hroom) (.append hstatements (.step rfl ?_) ?_)
  · rw [← hclosed]
    exact hclose
  · exact ⟨_, _, rfl, by simp [hcloser]⟩

/-- Items and a semicolon. -/
theorem Passes.semicolon {items : List Item} {nodes : List Node} {count : Nat}
    (hterminator : r.terminator = .semicolon) (hchain : r.chain = []) (hne : items ≠ [])
    (hnodes : resolve items = .ok nodes) (ht : t.kind = .semicolon)
    (hitems : r.Passes ts (·.kind ≠ .equals) (r.append items count)) :
    r.Passes (ts ++ [t]) (fun _ => True) (r.ended nodes count) := by
  have hitems' : (r.append items count).chain = items.reverse := by
    show items.reverse ++ r.chain = _
    rw [hchain, List.append_nil]
  have hend := Step.semicolon (r := r.append items count) hterminator ht
    (by simpa [hitems'] using hne) (by rwa [hitems', List.reverse_reverse])
  exact .append hitems (.step rfl hend) ⟨_, _, rfl, by simp [ht]⟩

section Block

variable {items : List Item} {node : Node} {nodes : List Node} {count line k : Nat}

/-- The reader behind a block that ends a statement. -/
theorem closed_eq (hterminator : r.terminator = .semicolon) :
    (r.append items k).closed node count line =
      { r.append (items ++ [.tree node]) count with pending := .blockEnd line } := by
  unfold closed
  rw [append_terminator, if_pos hterminator, append_append]

theorem endStatement_closed (hchain : r.chain = [])
    (hnodes : resolve (items ++ [.tree node]) = .ok nodes) (line' : Nat) :
    Reader.endStatement { r.append (items ++ [.tree node]) count with pending := .blockEnd line }
      line' = .ok (r.ended nodes count) := by
  refine endStatement_eq_ok_iff.2 ⟨nodes, ?_, rfl⟩
  show resolve ((items ++ [Item.tree node]).reverse ++ r.chain).reverse = _
  rw [hchain, List.append_nil, List.reverse_reverse, hnodes]

/-- A block ends its statement. -/
theorem Passes.blockEnd (hterminator : r.terminator = .semicolon) (hchain : r.chain = [])
    (hnodes : resolve (items ++ [.tree node]) = .ok nodes) :
    ((r.append items k).closed node count line).Passes [] (·.kind ≠ .semicolon)
      (r.ended nodes count) := by
  intro t rest u ht hu
  obtain ⟨v, hv, hrest⟩ := readAll_cons_eq_none.1 hu
  refine readAll_cons_eq_none.2 ⟨v, ?_, hrest⟩
  rw [closed_eq hterminator]
  unfold read at hv ⊢
  rw [ended_pending] at hv
  dsimp only
  rw [if_neg ht, endStatement_closed hchain hnodes]
  exact hv

/-- The semicolon behind a block belongs to its statement. -/
theorem Passes.blockSemicolon (hterminator : r.terminator = .semicolon) (hchain : r.chain = [])
    (hnodes : resolve (items ++ [.tree node]) = .ok nodes) (ht : t.kind = .semicolon) :
    ((r.append items k).closed node count line).Passes [t] (fun _ => True)
      (r.ended nodes count) := by
  intro t' rest u _ hu
  refine readAll_cons_eq_none.2 ⟨_, ?_, hu⟩
  rw [closed_eq hterminator]
  unfold read
  dsimp only
  rw [if_pos ht, endStatement_closed hchain hnodes]

end Block

end Reader

/-- An opening brace settles the items in front of it. -/
theorem Reader.Passes.block {r v w : Reader} {ts us : List Token} {items : List Item}
    (hitems : r.Passes ts (fun t => ∀ item ∈ items.getLast?, ¬item.Touches t) v)
    (hblock : v.Passes us (fun _ => True) w)
    (hus : ∃ t rest, us = t :: rest ∧ t.kind = .openBrace) :
    r.Passes (ts ++ us) (fun _ => True) w := by
  obtain ⟨t, rest, hus, ht⟩ := hus
  have hbrace : t.kind ≠ .equals := by simp [ht]
  exact hitems.append hblock ⟨t, rest, hus, fun _ _ => Item.not_touches hbrace⟩

theorem Bracket.terminator_ne_semicolon {bracket : Bracket} (h : bracket ≠ .brace) :
    bracket.terminator ≠ .semicolon := by
  cases bracket <;> simp [terminator] at h ⊢

/-- What begins with an equals sign cannot follow an operator. -/
theorem Separated.not_touches {items : List Item} {item : Item} {t : Token}
    (h : Separated (items ++ [item])) (ht : t.kind = .equals → ∃ o op, item = .operator o op) :
    ∀ last ∈ items.getLast?, ¬last.Touches t := by
  rintro last hlast ⟨o, rfl, hkind, -⟩
  obtain ⟨o', op, rfl⟩ := ht hkind
  exact (List.isChain_append.1 h).2.2 _ hlast _ rfl ⟨rfl, rfl⟩

theorem IsStatement.ne_nil {depth k k' : Nat} {ts : List Token} {nodes : List Node}
    (h : IsStatement depth k ts nodes k') : nodes ≠ [] := by
  cases h with
  | items _ hne hnodes => exact ne_nil_of_resolve (resolve_of_juxtaposed hnodes) hne
  | block _ _ hnodes | blockSemicolon _ _ hnodes =>
    exact ne_nil_of_resolve (resolve_of_juxtaposed hnodes) (by simp)

theorem IsStatements.flatten_ne_nil {depth k k' : Nat} {ts : List Token}
    {statements : List (List Node)} (h : IsStatements depth k ts statements k')
    (hne : statements ≠ []) : statements.flatten ≠ [] := by
  cases h with
  | nil => contradiction
  | statement _ hnodes => simp [hnodes.ne_nil]

mutual

theorem IsItem.passes {depth k k' : Nat} {ts : List Token} {item : Item} :
    IsItem depth k ts item k' → ∀ r : Reader, r.frames.length = depth → r.count = k →
      r.pending = .nothing → r.Passes ts (¬item.Touches ·) (r.append [item] k')
  | @IsItem.word _ _ t f hitem => by
    intro r _ hcount hr
    subst hcount
    by_cases hsign : t.kind = .equals
    · rw [hsign] at hitem
      cases hitem
      exact (Reader.Passes.assign hr hsign).mono fun t' ht htouch => ht ⟨_, rfl, htouch⟩
    · exact (Reader.Passes.step hr (.word hitem hsign)).mono fun _ _ => trivial
  | .compare hfirst hsecond htouch => by
    intro r _ hcount hr
    subst hcount
    exact (Reader.Passes.compare hr hfirst hsecond htouch).mono fun _ _ => trivial
  | .structHead hword hname => by
    intro r _ hcount hr
    subst hcount
    exact (Reader.Passes.structHead hr hword hname).mono fun _ _ => trivial
  | @IsItem.group _ _ _ bracket opener _ _ _ _ hbracket hroom hopener hcloser hitems hne
      hnodes => by
    have hinside := hitems.passes
    intro r hdepth hcount hr
    subst hdepth hcount
    refine (Reader.Passes.group hr hbracket hroom hopener hcloser hne
      (resolve_of_juxtaposed hnodes) ?_).mono fun _ _ => trivial
    exact (hinside (r.entered bracket opener) rfl rfl hr
      (fun _ => Bracket.terminator_ne_semicolon hbracket) hnodes.separated).mono
      fun _ ht _ _ => Item.not_touches ht

theorem IsItems.passes {blocks : Bool} {depth k k' : Nat} {ts : List Token} {items : List Item} :
    IsItems blocks depth k ts items k' → ∀ r : Reader, r.frames.length = depth → r.count = k →
      r.pending = .nothing → (blocks = true → r.terminator ≠ .semicolon) → Separated items →
      r.Passes ts (fun t => ∀ item ∈ items.getLast?, ¬item.Touches t) (r.append items k')
  | .nil => by
    intro r _ hcount hr _ _ t rest u _ hu
    subst hcount
    rwa [Reader.append_nil hr] at hu
  | @IsItems.item _ _ _ l _ _ _ items _ hitems hitem => by
    intro r hdepth hcount hr hterminator hseparated
    obtain ⟨t, rest, hts, -, hequals⟩ := hitem.first
    have hfront := hitems.passes r hdepth hcount hr hterminator (List.isChain_append.1 hseparated).1
    have hlast := hitem.passes (r.append items l) hdepth rfl rfl
    rw [Reader.append_append] at hlast
    refine (hfront.append hlast ⟨t, rest, hts, hseparated.not_touches hequals⟩).mono ?_
    exact fun _ ht => ht _ (by simp)
  | @IsItems.block _ _ l _ _ _ items _ hitems hblock => by
    intro r hdepth hcount hr hterminator hseparated
    have hfront := hitems.passes r hdepth hcount hr hterminator (List.isChain_append.1 hseparated).1
    obtain ⟨line, hlast⟩ := hblock.passes (r.append items l) hdepth rfl rfl
    rw [Reader.closed, Reader.append_terminator, if_neg (hterminator rfl),
      Reader.append_append] at hlast
    exact (hfront.block hlast hblock.first).mono fun _ _ => trivial

theorem IsBlock.passes {depth k k' : Nat} {ts : List Token} {node : Node} :
    IsBlock depth k ts node k' → ∀ r : Reader, r.frames.length = depth → r.count = k →
      r.pending = .nothing → ∃ line, r.Passes ts (fun _ => True) (r.closed node k' line)
  | .braces hroom hopener hcloser hstatements hne => by
    have hinside := hstatements.passes
    intro r hdepth hcount hr
    subst hdepth hcount
    refine ⟨_, Reader.Passes.braces hr hroom hopener hcloser (hstatements.flatten_ne_nil hne) ?_⟩
    exact hinside _ rfl rfl hr rfl rfl

theorem IsStatement.passes {depth k k' : Nat} {ts : List Token} {nodes : List Node} :
    IsStatement depth k ts nodes k' → ∀ r : Reader, r.frames.length = depth → r.count = k →
      r.pending = .nothing → r.chain = [] → r.terminator = .semicolon →
      r.Passes ts (·.kind ≠ .semicolon) (r.ended nodes k')
  | .items hitems hne hnodes hsemicolon => by
    intro r hdepth hcount hr hchain hterminator
    have hfront := hitems.passes r hdepth hcount hr nofun hnodes.separated
    refine (Reader.Passes.semicolon hterminator hchain hne (resolve_of_juxtaposed hnodes)
      hsemicolon ?_).mono fun _ _ => trivial
    exact hfront.mono fun _ ht _ _ => Item.not_touches ht
  | @IsStatement.block _ _ l _ _ _ items _ _ hitems hblock hnodes => by
    intro r hdepth hcount hr hchain hterminator
    have hfront := hitems.passes r hdepth hcount hr nofun (List.isChain_append.1 hnodes.separated).1
    obtain ⟨line, hbraces⟩ := hblock.passes (r.append items l) hdepth rfl rfl
    exact (hfront.block hbraces hblock.first).settle
      (.blockEnd hterminator hchain (resolve_of_juxtaposed hnodes))
  | @IsStatement.blockSemicolon _ _ l _ _ _ items _ _ _ hitems hblock hnodes hsemicolon => by
    intro r hdepth hcount hr hchain hterminator
    have hfront := hitems.passes r hdepth hcount hr nofun (List.isChain_append.1 hnodes.separated).1
    obtain ⟨line, hbraces⟩ := hblock.passes (r.append items l) hdepth rfl rfl
    refine ((hfront.block hbraces hblock.first).append ?_ ⟨_, _, rfl, trivial⟩).mono
      fun _ _ => trivial
    exact .blockSemicolon hterminator hchain (resolve_of_juxtaposed hnodes) hsemicolon

theorem IsStatements.passes {depth k k' : Nat} {ts : List Token} {statements : List (List Node)} :
    IsStatements depth k ts statements k' → ∀ r : Reader, r.frames.length = depth → r.count = k →
      r.pending = .nothing → r.chain = [] → r.terminator = .semicolon →
      r.Passes ts (·.kind ≠ .semicolon) (r.endedAll statements k')
  | .nil => by
    intro r _ hcount hr hchain _ t rest u _ hu
    subst hcount
    rwa [Reader.endedAll_nil hchain hr] at hu
  | @IsStatements.statement _ _ l _ _ _ statements _ hstatements hstatement => by
    intro r hdepth hcount hr hchain hterminator
    have hfront := hstatements.passes r hdepth hcount hr hchain hterminator
    obtain ⟨hchain', hcount', hr'⟩ := r.endedAll_rest statements l
    have hlast := hstatement.passes (r.endedAll statements l)
      ((Reader.endedAll_length _ _).trans hdepth) hcount' hr' hchain'
      ((Reader.endedAll_terminator _ _).trans hterminator)
    rw [Reader.ended_endedAll] at hlast
    exact hfront.append hlast hstatement.first

end

/-- The reader reads a derived script, and makes the trees of the derivation. -/
theorem IsProgram.readAll {ts : List Token} {statements : List (List Node)} {count : Nat}
    (h : IsProgram ts statements count) :
    (Reader.start 0).readAll ts = (⟨[], [], statements.reverse, count, .nothing⟩, none) := by
  obtain @⟨k, k', ts, us, statements, items, nodes, last, hstatements, hitems, hlast, hnodes⟩ := h
  have hfront := hstatements.passes (Reader.start 0) rfl rfl rfl rfl rfl
  have hbehind := hitems.passes ((Reader.start 0).endedAll statements k) rfl rfl rfl nofun
    (List.isChain_append.1 hnodes.separated).1
  have hend : (((Reader.start 0).endedAll statements k).append items k').read last =
      .ok ⟨[], [], nodes :: (statements.reverse ++ []), k' + 1, .nothing⟩ := by
    refine (Reader.read_eq_ok_iff rfl).2 (.endOfInput hlast rfl ?_)
    rw [← resolve_of_juxtaposed hnodes]
    show resolve ((items.reverse ++ []).reverse ++ _) = _
    rw [List.append_nil, List.reverse_reverse]
    rfl
  have hread := hbehind last [] _ (fun _ _ => Item.not_touches (by simp [hlast]))
    (Reader.readAll_cons_eq_none.2 ⟨_, hend, rfl⟩)
  -- The statements are read up to the first token behind them.
  obtain ⟨t, rest, hus, ht⟩ : ∃ t rest, us ++ [last] = t :: rest ∧ t.kind ≠ .semicolon := by
    rcases hitems.first with ⟨rfl, -, -⟩ | ⟨-, t, rest, rfl, ht⟩
    · exact ⟨last, [], rfl, by simp [hlast]⟩
    · exact ⟨t, rest ++ [last], rfl, ht⟩
  rw [List.append_assoc]
  rw [hus] at hread ⊢
  rw [hfront t rest _ ht hread]
  simp

end ByteBricks.Syntax
