import ByteBricks.Proofs.Syntax.Steps
import ByteBricks.Proofs.Token.Words

/-! # Reading Words

  What the reader makes of words that it knows, one rule for each kind of word. A rule
  tells what has to hold behind the word for something to hold at the end, so that rules
  are put together in the order of the text. A text must not open more delimiters at once
  than the reader allows. -/

namespace ByteBricks

open Token (Word)

/-! ### Nesting -/

/-- The number of open delimiters behind a token if there are `depth` in front of it. -/
def Token.Kind.depth (depth : Nat) : Token.Kind → Nat
  | .openParen | .openBracket | .openBrace => depth + 1
  | .closeParen | .closeBracket | .closeBrace => depth - 1
  | _ => depth

/-- The largest number of delimiters that are open at once, when there are `depth` open in
    front of the tokens. -/
def Token.nesting (depth : Nat) : List Token → Nat
  | [] => depth
  | t :: rest => max depth (nesting (t.kind.depth depth) rest)

namespace Syntax

/-- The trees of a chain of parts, when `R` tells what trees each part may have. -/
inductive Joined {α : Type} (R : α → List Node → Prop) : List α → List Node → Prop where
  /-- No part has no trees. -/
  | nil : Joined R [] []
  /-- The trees of the first part stand in front. -/
  | cons {x : α} {xs : List α} {nodes rest : List Node} (first : R x nodes)
    (others : Joined R xs rest) : Joined R (x :: xs) (nodes ++ rest)

namespace Reader

/-! ### Reading to the End -/

/-- Whatever tokens have the words, the reader reads them all, and then `Q` holds. -/
def ReadsTo (r : Reader) (ws : List Word) (Q : Reader → Prop) : Prop :=
  ∀ ts, ts.map Token.word = ws → Token.nesting r.frames.length ts ≤ maxDepth →
    ∃ r', r.readAll ts = (r', none) ∧ Q r'

/-- The reader between the statements of a block, when `count` trees have been made. The
    trees of the block are in reverse. -/
def inside (r : Reader) (t : Token) (body : List Node) (count : Nat) : Reader :=
  ⟨⟨.brace, t, r.chain, body⟩ :: r.frames, [], r.statements, count, .nothing⟩

variable {r : Reader} {ws : List Word} {Q : Reader → Prop}

theorem ReadsTo.nil (h : Q r) : r.ReadsTo [] Q := by
  intro ts hts _
  obtain rfl := List.map_eq_nil_iff.1 hts
  exact ⟨r, rfl, h⟩

/-- A word is read before those behind it. -/
theorem ReadsTo.cons {w : Word}
    (h : ∀ t, t.word = w → w.kind.depth r.frames.length ≤ maxDepth →
      ∃ u, r.read t = .ok u ∧ u.frames.length = w.kind.depth r.frames.length ∧ u.ReadsTo ws Q) :
    r.ReadsTo (w :: ws) Q := by
  intro ts hts hnesting
  obtain ⟨t, rest, rfl, hw, hrest⟩ := List.map_eq_cons_iff.1 hts
  have hkind : t.kind = w.kind := by rw [← hw, Token.word]
  rw [Token.nesting, hkind] at hnesting
  -- The bound holds behind the first token too, where it bounds the depth.
  have hbehind := Nat.le_trans (Nat.le_max_right _ _) hnesting
  have hdepth : w.kind.depth r.frames.length ≤ maxDepth := by
    cases rest with
    | nil => exact hbehind
    | cons t rest => exact Nat.le_trans (Nat.le_max_left _ _) hbehind
  obtain ⟨u, hu, hlength, hrest'⟩ := h t hw hdepth
  rw [← hlength] at hbehind
  obtain ⟨r', hr', hQ⟩ := hrest' rest hrest hbehind
  exact ⟨r', readAll_cons_eq_none.2 ⟨u, hu, hr'⟩, hQ⟩

/-! ### Items -/

theorem ReadsTo.word {w : Word} (item : Origin → Item) (hr : r.pending = .nothing)
    (hitem : itemOfKind w.kind = some item) (hequals : w.kind ≠ .equals)
    (h : ∀ o count, o.token.text = w.text → (r.append [item o] count).ReadsTo ws Q) :
    r.ReadsTo (w :: ws) Q := by
  refine .cons fun t ht _ => ?_
  subst ht
  refine ⟨_, (read_eq_ok_iff hr).2 (.word hitem hequals), ?_, h (r.origin t) (r.count + 1) rfl⟩
  -- No delimiter is an item alone.
  show _ = t.kind.depth r.frames.length
  cases hkind : t.kind <;> simp [Token.word, hkind, itemOfKind] at hitem <;> rfl

theorem ReadsTo.name {text : String} (hr : r.pending = .nothing)
    (h : ∀ o count, o.token.text = text → (r.append [.tree (.name o)] count).ReadsTo ws Q) :
    r.ReadsTo (⟨.name, text⟩ :: ws) Q :=
  .word (fun o => .tree (.name o)) hr rfl (by simp) h

theorem ReadsTo.integer {text : String} (hr : r.pending = .nothing)
    (h : ∀ o count, o.token.text = text → (r.append [.tree (.integer o)] count).ReadsTo ws Q) :
    r.ReadsTo (⟨.integer, text⟩ :: ws) Q :=
  .word (fun o => .tree (.integer o)) hr rfl (by simp) h

theorem ReadsTo.operator (op : BinaryOp) {w : Word} (hr : r.pending = .nothing)
    (hw : w.kind = op.kind) (hop : op.kind ≠ .equals)
    (h : ∀ o count, (r.append [.operator o op] count).ReadsTo ws Q) : r.ReadsTo (w :: ws) Q := by
  refine .word (fun o => .operator o op) hr ?_ (hw ▸ hop) fun o count _ => h o count
  -- An equals sign may be the first half of a comparison, so it is no item of its own.
  rw [hw]
  cases op <;> first | rfl | contradiction

/-- The keyword and the name of a struct are one item. -/
theorem ReadsTo.structHead {text : String} (hr : r.pending = .nothing)
    (h : ∀ o n count, n.token.text = text →
      (r.append [.tree (.structHead o n)] count).ReadsTo ws Q) :
    r.ReadsTo (⟨.structWord, "struct"⟩ :: ⟨.name, text⟩ :: ws) Q := by
  refine .cons fun word hword _ => ?_
  have hkind : word.kind = .structWord := congrArg Word.kind hword
  -- The keyword alone adds nothing to the chain: the reader waits for the name.
  refine ⟨_, (read_eq_ok_iff hr).2 (.structWord hkind), rfl, .cons fun t ht _ => ?_⟩
  have hname : t.kind = .name := congrArg Word.kind ht
  refine ⟨_, if_pos hname, rfl, h ⟨r.count + 1, word⟩ ⟨r.count, t⟩ (r.count + 2) ?_⟩
  exact congrArg Word.text ht

/-! ### Parentheses and Brackets -/

/-- A delimiter is opened if there is room for it. -/
theorem ReadsTo.enter (bracket : Bracket) {w : Word} (hr : r.pending = .nothing)
    (hw : w.kind = bracket.opener) (h : ∀ t, (r.entered bracket t).ReadsTo ws Q) :
    r.ReadsTo (w :: ws) Q := by
  refine .cons fun t ht hdepth => ?_
  have hkind : t.kind = bracket.opener := (congrArg Word.kind ht).trans hw
  have hlength : w.kind.depth r.frames.length = r.frames.length + 1 := by
    rw [hw]
    cases bracket <;> rfl
  rw [hlength] at hdepth ⊢
  exact ⟨_, (read_eq_ok_iff hr).2 (.enter bracket hkind hdepth), rfl, h t⟩

/-- A chain in parentheses or brackets becomes an item of the chain outside. -/
theorem ReadsTo.close {bracket : Bracket} {w : Word} {t : Token} {items : List Item}
    {nodes : List Node} {count : Nat} (hbracket : bracket ≠ .brace)
    (hw : w.kind = bracket.terminator) (hitems : items ≠ []) (hnodes : resolve items = .ok nodes)
    (h : ∀ o count, (r.append [bracket.item o nodes] count).ReadsTo ws Q) :
    ((r.entered bracket t).append items count).ReadsTo (w :: ws) Q := by
  refine .cons fun u hu _ => ?_
  have hkind : u.kind = bracket.terminator := (congrArg Word.kind hu).trans hw
  have hchain : ((r.entered bracket t).append items count).chain = items.reverse :=
    List.append_nil _
  have hleave := Step.leave (r := (r.entered bracket t).append items count) (t := u) rfl hbracket
    hkind (by simpa [hchain] using hitems) (by rwa [hchain, List.reverse_reverse])
  refine ⟨_, (read_eq_ok_iff rfl).2 hleave, ?_, h ⟨count, t⟩ (count + 1)⟩
  rw [hw]
  cases bracket with
  | brace => contradiction
  | paren | square => rfl

/-! ### Statements -/

/-- A semicolon ends the statement in front of it. -/
theorem ReadsTo.semicolon {items : List Item} {nodes : List Node} {count : Nat}
    (hr : r.chain = []) (hterminator : r.terminator = .semicolon) (hitems : items ≠ [])
    (hnodes : resolve items = .ok nodes) (h : (r.ended nodes count).ReadsTo ws Q) :
    (r.append items count).ReadsTo (⟨.semicolon, ";"⟩ :: ws) Q := by
  refine .cons fun t ht _ => ?_
  have hkind : t.kind = .semicolon := congrArg Word.kind ht
  have hchain : (r.append items count).chain = items.reverse := by
    show items.reverse ++ r.chain = _
    rw [hr, List.append_nil]
  have hend := Step.semicolon (r := r.append items count) hterminator hkind
    (by simpa [hchain] using hitems) (by rwa [hchain, List.reverse_reverse])
  exact ⟨_, (read_eq_ok_iff rfl).2 hend, ended_length nodes count, h⟩

/-- A block ends its statement together with the semicolon behind it. -/
theorem ReadsTo.closeBrace {t : Token} {body : List Node} {count : Nat}
    (nodes : Origin → List Node) (hterminator : r.terminator = .semicolon) (hbody : body ≠ [])
    (hnodes : ∀ o, resolve (r.chain.reverse ++ [.tree (.block o body.reverse)]) = .ok (nodes o))
    (h : ∀ o count, (r.ended (nodes o) count).ReadsTo ws Q) :
    (r.inside t body count).ReadsTo (⟨.closeBrace, "\x7d"⟩ :: ⟨.semicolon, ";"⟩ :: ws) Q := by
  refine .cons fun brace hbrace _ => ?_
  have hkind : brace.kind = .closeBrace := congrArg Word.kind hbrace
  let item : Item := .tree (.block ⟨count, t⟩ body.reverse)
  have hread : (r.inside t body count).read brace =
      .ok { r.append [item] (count + 1) with pending := .blockEnd brace.line } := by
    have hclose :
        (r.inside t body count).closeBlock ⟨.brace, t, r.chain, body⟩ r.frames brace.line =
          { r.append [item] (count + 1) with pending := .blockEnd brace.line } := if_pos hterminator
    rw [← hclose, read_eq_ok_iff rfl]
    exact .closeBlock rfl hkind hbody rfl
  -- The statement of the block ends with the next token, and a semicolon belongs to it.
  refine ⟨_, hread, rfl, .cons fun u hu _ => ?_⟩
  have hsemicolon : u.kind = .semicolon := congrArg Word.kind hu
  have hend : Reader.read { r.append [item] (count + 1) with pending := .blockEnd brace.line } u =
      .ok (r.ended (nodes ⟨count, t⟩) (count + 1)) := by
    unfold read
    dsimp only
    rw [if_pos hsemicolon]
    refine endStatement_eq_ok_iff.2 ⟨_, ?_, rfl⟩
    rw [← hnodes ⟨count, t⟩]
    show resolve (_ :: r.chain).reverse = _
    rw [List.reverse_cons]
  exact ⟨_, hend, ended_length _ _, h _ _⟩

/-- Words that a semicolon makes a statement of, which has such trees as `R` tells. -/
def ReadsStatement (words : List Word) (R : List Node → Prop) : Prop :=
  ∀ (r : Reader) (ws : List Word) (Q : Reader → Prop), r.chain = [] → r.pending = .nothing →
    r.terminator = .semicolon → (∀ nodes count, R nodes → (r.ended nodes count).ReadsTo ws Q) →
    r.ReadsTo (words ++ ⟨.semicolon, ";"⟩ :: ws) Q

section Body

variable {α : Type} {words : α → List Word} {R : α → List Node → Prop} {xs : List α} {t : Token}

/-- The statements of a block are read one after the other. -/
theorem ReadsTo.statements (hxs : ∀ x ∈ xs, ReadsStatement (words x) (R x)) {body : List Node}
    {count : Nat}
    (h : ∀ nodes count, Joined R xs nodes →
      (r.inside t (nodes.reverse ++ body) count).ReadsTo ws Q) :
    (r.inside t body count).ReadsTo (xs.flatMap (fun x => words x ++ [⟨.semicolon, ";"⟩]) ++ ws)
      Q := by
  induction xs generalizing body count with
  | nil => exact h [] count .nil
  | cons x xs ih =>
    obtain ⟨hx, hxs⟩ := List.forall_mem_cons.1 hxs
    rw [List.flatMap_cons, List.append_assoc, List.append_assoc]
    refine hx _ _ _ rfl rfl rfl fun nodes count hnodes => ?_
    show (r.inside t (nodes.reverse ++ body) count).ReadsTo _ _
    refine ih hxs fun rest count hrest => ?_
    have hjoined := h (nodes ++ rest) count (.cons hnodes hrest)
    rwa [List.reverse_append, List.append_assoc] at hjoined

/-- Statements in braces are one item at the end of the chain outside. -/
theorem ReadsTo.braces (nodes : Origin → List Node → List Node) (hr : r.pending = .nothing)
    (hterminator : r.terminator = .semicolon) (hne : xs ≠ [])
    (hR : ∀ x ns, R x ns → ns ≠ []) (hxs : ∀ x ∈ xs, ReadsStatement (words x) (R x))
    (hnodes : ∀ o body, resolve (r.chain.reverse ++ [.tree (.block o body)]) = .ok (nodes o body))
    (h : ∀ o body count, Joined R xs body → (r.ended (nodes o body) count).ReadsTo ws Q) :
    r.ReadsTo (⟨.openBrace, "\x7b"⟩ :: (xs.flatMap (fun x => words x ++ [⟨.semicolon, ";"⟩]) ++
      ⟨.closeBrace, "\x7d"⟩ :: ⟨.semicolon, ";"⟩ :: ws)) Q := by
  refine .enter .brace hr rfl fun t => ?_
  have hinside : r.entered .brace t = r.inside t [] r.count := by
    unfold entered inside
    rw [hr]
  rw [hinside]
  refine .statements hxs fun body count hbody => ?_
  rw [List.append_nil]
  -- Empty braces could not be closed.
  have hbodyNe : body ≠ [] := by
    cases hbody with
    | nil => exact absurd rfl hne
    | cons first others => exact List.append_ne_nil_of_left_ne_nil (hR _ _ first) _
  refine .closeBrace (fun o => nodes o body) hterminator (by simpa using hbodyNe)
    (fun o => ?_) fun o count => h o body count hbody
  rw [List.reverse_reverse]
  exact hnodes o body

end Body

/-- The end of the source is a statement by itself. -/
theorem ReadsTo.endOfInput {statements : List (List Node)} {count : Nat}
    (h : ∀ o count, Q ⟨[], [], [.scriptEnd o] :: statements, count, .nothing⟩) :
    Reader.ReadsTo ⟨[], [], statements, count, .nothing⟩ [⟨.endOfInput, ""⟩] Q := by
  refine .cons fun t ht _ => ?_
  have hkind : t.kind = .endOfInput := congrArg Word.kind ht
  exact ⟨_, (read_eq_ok_iff rfl).2 (.endOfInput hkind rfl rfl), rfl, .nil (h _ _)⟩

end Reader

end Syntax

end ByteBricks
