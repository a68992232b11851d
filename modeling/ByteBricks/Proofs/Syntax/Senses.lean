import ByteBricks.Proofs.Syntax.Derivation
import ByteBricks.Proofs.Token.Senses

/-! # The Words of Trees

  No word of a script is left out of its trees, taken in twice or moved: from left to
  right, the trees are made of the words of the source. Only the semicolons are gone. -/

namespace ByteBricks.Syntax

open Token (Word senses)

/-! ### Words -/

/-- The words of an operator. A comparison is made of two equals signs. -/
def BinaryOp.words : BinaryOp → List Word
  | .compare => [⟨.equals, "="⟩, ⟨.equals, "="⟩]
  | op => [⟨op.kind, op.symbol⟩]

mutual

/-- The words of a tree, from left to right. The end of the script has none. -/
def Node.words : Node → List Word
  | .name o => [⟨.name, o.token.text⟩]
  | .integer o => [⟨.integer, o.token.text⟩]
  | .control o _ => [o.token.word]
  | .structHead _ n => [⟨.structWord, "struct"⟩, ⟨.name, n.token.text⟩]
  | .paren _ inner => ⟨.openParen, "("⟩ :: (Node.wordsAll inner ++ [⟨.closeParen, ")"⟩])
  | .block _ body => ⟨.openBrace, "\x7b"⟩ :: (Node.wordsAll body ++ [⟨.closeBrace, "\x7d"⟩])
  | .element _ base index =>
    base.words ++ ⟨.openBracket, "["⟩ :: (Node.wordsAll index ++ [⟨.closeBracket, "]"⟩])
  | .binary _ op lhs rhs => lhs.words ++ (op.words ++ rhs.words)
  | .scriptEnd _ => []

/-- The words of trees side by side. -/
def Node.wordsAll : List Node → List Word
  | [] => []
  | n :: rest => n.words ++ Node.wordsAll rest

end

/-- The words of an item. -/
def Item.words : Item → List Word
  | .tree n => n.words
  | .operator _ op => op.words
  | .subscript _ index =>
    ⟨.openBracket, "["⟩ :: (Node.wordsAll index ++ [⟨.closeBracket, "]"⟩])

theorem Node.wordsAll_eq_flatMap (ns : List Node) : Node.wordsAll ns = ns.flatMap Node.words := by
  induction ns with
  | nil => rfl
  | cons n ns ih => rw [wordsAll, ih, List.flatMap_cons]

@[simp] theorem Node.wordsAll_append (a b : List Node) :
    Node.wordsAll (a ++ b) = Node.wordsAll a ++ Node.wordsAll b := by
  simp [wordsAll_eq_flatMap]

/-! ### Chains -/

/-- The items of a tree are made of its words. -/
theorem Node.words_inOrder (n : Node) : n.inOrder.flatMap Item.words = n.words := by
  fun_induction Node.inOrder n with
  | case1 o base index ih => simp [ih, Item.words, Node.words]
  | case2 o op lhs rhs ihl ihr => simp [ihl, ihr, Item.words, Node.words]
  | case3 n helement hbinary => simp [Item.words]

/-- Resolving a chain keeps its words where they are. -/
theorem Juxtaposed.words {items : List Item} {nodes : List Node} (h : Juxtaposed items nodes) :
    items.flatMap Item.words = Node.wordsAll nodes := by
  obtain ⟨rfl, -⟩ := h.inOrder
  rw [List.flatMap_assoc, Node.wordsAll_eq_flatMap]
  simp only [Node.words_inOrder]

/-! ### Derivations -/

/-- A token that is an item alone is the word of the item. -/
theorem words_of_itemOfKind {t : Token} {item : Origin → Item} {k : Nat}
    (h : itemOfKind t.kind = some item) (ht : t.word.IsLexeme) :
    (item ⟨k, t⟩).words = [t.word] := by
  unfold itemOfKind at h
  split at h
  case h_1 hkind | h_2 hkind =>
    cases h
    rw [Token.word, hkind]
    rfl
  case h_3 | h_4 | h_5 =>
    cases h
    rfl
  case h_12 => cases h
  -- The operators are written in one way each.
  all_goals
    next hkind =>
    cases h
    rw [Token.word_eq ht hkind rfl]
    rfl

/-- Between delimiters, only the words inside have to be compared. -/
theorem senses_enclosed {opener closer : Token} {first last : Token.Kind}
    {firstText lastText : String} {ts : List Token} {ws : List Word}
    (hts : ∀ t ∈ opener :: (ts ++ [closer]), t.word.IsLexeme) (hopener : opener.kind = first)
    (hcloser : closer.kind = last) (hfirst : first.text? = some firstText)
    (hlast : last.text? = some lastText)
    (h : (∀ t ∈ ts, t.word.IsLexeme) → senses (ts.map Token.word) = senses ws) :
    senses ((opener :: (ts ++ [closer])).map Token.word) =
      senses (⟨first, firstText⟩ :: (ws ++ [⟨last, lastText⟩])) := by
  obtain ⟨hopenerWord, hts⟩ := List.forall_mem_cons.1 hts
  obtain ⟨hts, hcloserWord⟩ := List.forall_mem_append.1 hts
  have hcloserWord := List.forall_mem_singleton.1 hcloserWord
  rw [List.map_cons, List.map_append, List.map_singleton,
    Token.word_eq hopenerWord hopener hfirst, Token.word_eq hcloserWord hcloser hlast]
  exact Token.senses_between _ _ (h hts)

mutual

/-- The tokens of an item say what its trees say. -/
theorem IsItem.senses {depth k k' : Nat} {ts : List Token} {item : Item} :
    IsItem depth k ts item k' → (∀ t ∈ ts, t.word.IsLexeme) →
      senses (ts.map Token.word) = senses item.words
  | @IsItem.word _ _ t f hitem, hts => by
    have ht := List.forall_mem_singleton.1 hts
    rw [words_of_itemOfKind hitem ht, List.map_singleton]
  | @IsItem.compare _ _ first second hfirst hsecond _, hts => by
    obtain ⟨hfirstWord, hts⟩ := List.forall_mem_cons.1 hts
    have hsecondWord := List.forall_mem_singleton.1 hts
    rw [List.map_cons, List.map_singleton, Token.word_eq hfirstWord hfirst rfl,
      Token.word_eq hsecondWord hsecond rfl]
    rfl
  | @IsItem.structHead _ _ keyword name hkeyword hname, hts => by
    have hlexeme := (List.forall_mem_cons.1 hts).1
    rw [List.map_cons, List.map_singleton, Token.word_eq hlexeme hkeyword rfl, Token.word, hname]
    rfl
  | @IsItem.group _ _ _ bracket opener closer ts _ nodes hbracket _ hopener hcloser hitems _
      hnodes, hts => by
    have hinside (hts : ∀ t ∈ ts, t.word.IsLexeme) :
        senses (ts.map Token.word) = senses (Node.wordsAll nodes) := by
      rw [hitems.senses hts, hnodes.words]
    cases bracket with
    | paren => exact senses_enclosed hts hopener hcloser rfl rfl hinside
    | square => exact senses_enclosed hts hopener hcloser rfl rfl hinside
    | brace => contradiction

theorem IsItems.senses {blocks : Bool} {depth k k' : Nat} {ts : List Token} {items : List Item} :
    IsItems blocks depth k ts items k' → (∀ t ∈ ts, t.word.IsLexeme) →
      senses (ts.map Token.word) = senses (items.flatMap Item.words)
  | .nil, _ => rfl
  | .item hitems hitem, hts => by
    obtain ⟨hts, hus⟩ := List.forall_mem_append.1 hts
    simp [hitems.senses hts, hitem.senses hus]
  | .block hitems hblock, hts => by
    obtain ⟨hts, hus⟩ := List.forall_mem_append.1 hts
    simp [hitems.senses hts, hblock.senses hus, Item.words]

theorem IsBlock.senses {depth k k' : Nat} {ts : List Token} {node : Node} :
    IsBlock depth k ts node k' → (∀ t ∈ ts, t.word.IsLexeme) →
      senses (ts.map Token.word) = senses node.words
  | .braces _ hopener hcloser hstatements _, hts =>
    senses_enclosed hts hopener hcloser rfl rfl hstatements.senses

theorem IsStatement.senses {depth k k' : Nat} {ts : List Token} {nodes : List Node} :
    IsStatement depth k ts nodes k' → (∀ t ∈ ts, t.word.IsLexeme) →
      senses (ts.map Token.word) = senses (Node.wordsAll nodes)
  | .items hitems _ hnodes hsemicolon, hts => by
    have hfront := hitems.senses (List.forall_mem_append.1 hts).1
    simp [hfront, hnodes.words, Token.senses_semicolon hsemicolon]
  | .block hitems hblock hnodes, hts => by
    obtain ⟨hts, hus⟩ := List.forall_mem_append.1 hts
    simp [hitems.senses hts, hblock.senses hus, ← hnodes.words, Item.words]
  | .blockSemicolon hitems hblock hnodes hsemicolon, hts => by
    obtain ⟨hts, hus⟩ := List.forall_mem_append.1 (List.forall_mem_append.1 hts).1
    simp [hitems.senses hts, hblock.senses hus, ← hnodes.words, Item.words,
      Token.senses_semicolon hsemicolon]

theorem IsStatements.senses {depth k k' : Nat} {ts : List Token} {statements : List (List Node)} :
    IsStatements depth k ts statements k' → (∀ t ∈ ts, t.word.IsLexeme) →
      senses (ts.map Token.word) = senses (Node.wordsAll statements.flatten)
  | .nil, _ => rfl
  | .statement hstatements hstatement, hts => by
    obtain ⟨hts, hus⟩ := List.forall_mem_append.1 hts
    simp [hstatements.senses hts, hstatement.senses hus]

end

/-- The tokens in front of the end of a source say what the trees of the script say. -/
theorem IsProgram.senses {ts : List Token} {e : Token} {statements : List (List Node)}
    {count : Nat} (h : IsProgram (ts ++ [e]) statements count)
    (hts : ∀ t ∈ ts, t.word.IsLexeme) :
    senses (ts.map Token.word) = senses (Node.wordsAll statements.flatten) := by
  generalize htokens : ts ++ [e] = tokens at h
  obtain ⟨hstatements, hitems, hlast, hnodes⟩ := h
  obtain ⟨rfl, -⟩ := List.append_inj' htokens rfl
  obtain ⟨hts, hus⟩ := List.forall_mem_append.1 hts
  simp [hstatements.senses hts, hitems.senses hus, ← hnodes.words, Item.words, Node.words]

/-! ### Scripts -/

/-- **Main theorem.** Whatever a source says, its script says, in the same order. -/
theorem Script.senses_of_ofSource {source : String} {script : Script}
    (h : Script.ofSource source = .ok script) :
    senses ((Token.scan source).tokens.map Token.word) =
      senses (Node.wordsAll script.statements.flatten ++ [⟨.endOfInput, ""⟩]) := by
  obtain ⟨hfailure, r, hread, rfl⟩ := Script.ofSource_eq_ok_iff.1 h
  obtain ⟨ts, e, hts, he, hwords⟩ := Token.isLexeme_of_scanFrom _ _ _ hfailure
  have htokens : (Token.scan source).tokens = ts ++ [e] := hts
  rw [htokens] at hread
  have hprogram := (readAll_iff_isProgram he fun t ht => (hwords t ht).1).1 ⟨r, hread, rfl, rfl⟩
  have hend : e.word = ⟨.endOfInput, ""⟩ :=
    Token.word_endOfInput _ _ _ e (hts ▸ List.mem_append_right ts (List.mem_singleton_self e)) he
  rw [htokens, List.map_append, List.map_singleton, Token.senses_append, Token.senses_append,
    hprogram.senses fun t ht => (hwords t ht).2, hend]

end ByteBricks.Syntax
