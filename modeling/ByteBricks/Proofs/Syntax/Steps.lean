import ByteBricks.Proofs.Syntax.Reading

/-! # The Steps of the Reader

  What one token can do when nothing is pending, with all that it asks of the reader. A
  token is read exactly if one of these steps applies, so what is proved of every step
  holds of everything that is read. -/

namespace ByteBricks.Syntax

/-! ### Kinds of Tokens -/

/-- The kind of the token that an operator is read from, or of its first half. -/
def BinaryOp.kind : BinaryOp → Token.Kind
  | .member => .dot
  | .assign | .compare => .equals
  | .times => .star
  | .divide => .slash
  | .plus => .plus
  | .minus => .minus

/-- The item that a token makes alone. An equals sign does so unless another one touches it. -/
def itemOfKind : Token.Kind → Option (Origin → Item)
  | .name => some fun o => .tree (.name o)
  | .integer => some fun o => .tree (.integer o)
  | .ifWord => some fun o => .tree (.control o .ifWord)
  | .elseWord => some fun o => .tree (.control o .elseWord)
  | .whileWord => some fun o => .tree (.control o .whileWord)
  | .dot => some fun o => .operator o .member
  | .equals => some fun o => .operator o .assign
  | .plus => some fun o => .operator o .plus
  | .minus => some fun o => .operator o .minus
  | .star => some fun o => .operator o .times
  | .slash => some fun o => .operator o .divide
  | _ => none

/-- The token that opens the delimiter. -/
def Bracket.opener : Bracket → Token.Kind
  | .paren => .openParen
  | .square => .openBracket
  | .brace => .openBrace

/-- The item that the delimiter makes of the trees inside of it. -/
def Bracket.item : Bracket → Origin → List Node → Item
  | .paren, o, nodes => .tree (.paren o nodes)
  | .square, o, nodes => .subscript o nodes
  | .brace, o, nodes => .tree (.block o nodes)

namespace Reader

variable {r r' : Reader} {t : Token}

/-! ### Readers -/

/-- The reader with more items in its chain, when `count` trees have been made. -/
def append (r : Reader) (items : List Item) (count : Nat) : Reader :=
  { r with chain := items.reverse ++ r.chain, count := count, pending := .nothing }

/-- The reader inside of a delimiter. -/
def entered (r : Reader) (bracket : Bracket) (t : Token) : Reader :=
  { r with frames := ⟨bracket, t, r.chain, []⟩ :: r.frames, chain := [] }

/-- The reader behind a statement with the trees, when `count` trees have been made. -/
def ended (r : Reader) (nodes : List Node) (count : Nat) : Reader :=
  match r.frames with
  | [] => ⟨[], [], nodes :: r.statements, count, .nothing⟩
  | frame :: frames =>
    ⟨{ frame with body := nodes.reverse ++ frame.body } :: frames, [], r.statements, count,
      .nothing⟩

@[simp] theorem append_append (a b : List Item) (k l : Nat) :
    (r.append a k).append b l = r.append (a ++ b) l := by
  simp [append]

@[simp] theorem append_terminator (items : List Item) (count : Nat) :
    (r.append items count).terminator = r.terminator := rfl

@[simp] theorem ended_length (nodes : List Node) (count : Nat) :
    (r.ended nodes count).frames.length = r.frames.length := by
  unfold ended
  cases r.frames <;> rfl

@[simp] theorem ended_pending (nodes : List Node) (count : Nat) :
    (r.ended nodes count).pending = .nothing := by
  unfold ended
  cases r.frames <;> rfl

theorem terminator_cases (r : Reader) : r.terminator = .semicolon ∨ r.terminator = .closeParen ∨
    r.terminator = .closeBracket := by
  unfold terminator
  split
  · exact .inl rfl
  · next frame _ _ => cases frame.bracket <;> simp [Bracket.terminator]

/-! ### Steps -/

/-- What a token does when nothing is pending. -/
inductive Step (r : Reader) (t : Token) : Reader → Prop
  /-- A token that makes an item alone. -/
  | word {item : Origin → Item} : itemOfKind t.kind = some item → t.kind ≠ .equals →
      Step r t (r.push (item (r.origin t)))
  /-- The first half of a comparison, or an assignment. -/
  | equals : t.kind = .equals → Step r t { r with pending := .equals t }
  /-- The keyword in front of the name of a struct. -/
  | structWord : t.kind = .structWord → Step r t { r with pending := .structName t }
  /-- A delimiter that is opened. -/
  | enter (bracket : Bracket) : t.kind = bracket.opener → r.frames.length < maxDepth →
      Step r t (r.entered bracket t)
  /-- The end of parentheses or brackets. -/
  | leave {bracket : Bracket} {opener : Token} {outer : List Item} {body nodes : List Node}
      {frames : List Frame} : r.frames = ⟨bracket, opener, outer, body⟩ :: frames →
      bracket ≠ .brace → t.kind = bracket.terminator → r.chain ≠ [] →
      resolve r.chain.reverse = .ok nodes →
      Step r t (r.leave outer frames (bracket.item (r.origin opener) nodes))
  /-- The end of a statement. -/
  | semicolon {nodes : List Node} : r.terminator = .semicolon → t.kind = .semicolon →
      r.chain ≠ [] → resolve r.chain.reverse = .ok nodes → Step r t (r.ended nodes r.count)
  /-- The end of a block. -/
  | closeBlock {opener : Token} {outer : List Item} {body : List Node} {frames : List Frame} :
      r.frames = ⟨.brace, opener, outer, body⟩ :: frames → t.kind = .closeBrace → body ≠ [] →
      r.chain = [] → Step r t (r.closeBlock ⟨.brace, opener, outer, body⟩ frames t.line)
  /-- The end of the source. -/
  | endOfInput {nodes : List Node} : t.kind = .endOfInput → r.frames = [] →
      resolve (r.chain.reverse ++ [.tree (.scriptEnd (r.origin t))]) = .ok nodes →
      Step r t ⟨[], [], nodes :: r.statements, r.count + 1, .nothing⟩

theorem endStatement_eq_ok_iff {line : Nat} : r.endStatement line = .ok r' ↔
    ∃ nodes, resolve r.chain.reverse = .ok nodes ∧ r' = r.ended nodes r.count := by
  unfold endStatement
  refine bind_eq_ok.trans (exists_congr fun nodes => and_congr resolveChain_eq_ok ?_)
  unfold ended
  obtain ⟨frames, chain, statements, count, pending⟩ := r
  cases frames <;> simp [pure, Except.pure, eq_comm]

/-- A token that ends neither a chain nor a block adds to the chain. -/
theorem readToken_eq_readItem (hsemicolon : t.kind ≠ .semicolon) (hparen : t.kind ≠ .closeParen)
    (hbracket : t.kind ≠ .closeBracket) (hbrace : t.kind ≠ .closeBrace) :
    r.readToken t = r.readItem t := by
  have hterminator : t.kind ≠ r.terminator := by
    rcases terminator_cases r with h | h | h <;> rw [h] <;> assumption
  unfold readToken
  rw [if_neg hterminator, if_neg hbrace]

theorem readItem_of_itemOfKind {item : Origin → Item} (h : itemOfKind t.kind = some item)
    (hequals : t.kind ≠ .equals) : r.readItem t = .ok (r.push (item (r.origin t))) := by
  unfold readItem
  cases hkind : t.kind <;> rw [hkind] at h hequals <;> cases h <;> first | rfl | contradiction

theorem readToken_of_opener {bracket : Bracket} (h : t.kind = bracket.opener) :
    r.readToken t = r.enter bracket t := by
  have hother (kind : Token.Kind) (hne : bracket.opener ≠ kind) : t.kind ≠ kind := h ▸ hne
  rw [readToken_eq_readItem]
  · unfold readItem
    rw [h]
    cases bracket <;> rfl
  all_goals
    apply hother
    cases bracket <;> decide

/-- The block that can be closed here. -/
theorem closable?_eq_some_iff {frame : Frame} {frames : List Frame} :
    r.closable? = some (frame, frames) ↔
      r.frames = frame :: frames ∧ frame.bracket = .brace ∧ frame.body ≠ [] ∧ r.chain = [] := by
  unfold closable?
  cases r.frames with
  | nil => simp
  | cons f fs =>
    simp only [Option.ite_none_right_eq_some, Option.some.injEq, Prod.mk.injEq, List.cons.injEq]
    constructor
    · rintro ⟨hclosable, rfl, rfl⟩
      exact ⟨⟨rfl, rfl⟩, hclosable⟩
    · rintro ⟨⟨rfl, rfl⟩, hclosable⟩
      exact ⟨hclosable, rfl, rfl⟩

theorem Step.readToken (h : Step r t r') : r.readToken t = .ok r' := by
  cases h with
  | word hitem hequals =>
    have hother (kind : Token.Kind) (hnone : itemOfKind kind = none) : t.kind ≠ kind := by
      rintro rfl
      simp [hnone] at hitem
    rw [readToken_eq_readItem (hother _ rfl) (hother _ rfl) (hother _ rfl) (hother _ rfl)]
    exact readItem_of_itemOfKind hitem hequals
  | equals hkind | structWord hkind =>
    rw [readToken_eq_readItem (by simp [hkind]) (by simp [hkind]) (by simp [hkind])
      (by simp [hkind])]
    unfold readItem
    rw [hkind]
  | enter bracket hkind hdepth =>
    rw [readToken_of_opener hkind, Reader.enter, if_neg (Nat.not_le_of_lt hdepth)]
    rfl
  | @leave bracket opener outer body nodes frames hframes hbracket hkind hchain hnodes =>
    have hterminator : t.kind = r.terminator := by
      rw [hkind, terminator, hframes]
    unfold Reader.readToken
    rw [if_pos hterminator, endChain_eq_ok_iff, hframes]
    refine ⟨hchain, ?_⟩
    cases bracket with
    | brace => contradiction
    | paren | square => exact ⟨nodes, resolveChain_eq_ok.2 hnodes, rfl⟩
  | @semicolon nodes hterminator hkind hchain hnodes =>
    have hend : r.endStatement t.line = .ok (r.ended nodes r.count) :=
      endStatement_eq_ok_iff.2 ⟨nodes, hnodes, rfl⟩
    unfold Reader.readToken
    rw [if_pos (hkind.trans hterminator.symm), endChain_eq_ok_iff]
    refine ⟨hchain, ?_⟩
    unfold terminator at hterminator
    rcases hframes : r.frames with _ | ⟨⟨bracket, opener, outer, body⟩, frames⟩
    · exact hend
    · rw [hframes] at hterminator
      cases bracket with
      | brace => exact hend
      | paren | square => simp [Bracket.terminator] at hterminator
  | @closeBlock opener outer body frames hframes hkind hbody hchain =>
    have hother : t.kind ≠ r.terminator := by
      rw [hkind, terminator, hframes]
      simp [Bracket.terminator]
    have hclosable : r.closable? = some (⟨.brace, opener, outer, body⟩, frames) :=
      closable?_eq_some_iff.2 ⟨hframes, rfl, hbody, hchain⟩
    unfold Reader.readToken
    rw [if_neg hother, if_pos hkind, hclosable]
  | @endOfInput nodes hkind hframes hnodes =>
    rw [readToken_eq_readItem (by simp [hkind]) (by simp [hkind]) (by simp [hkind])
      (by simp [hkind])]
    unfold readItem endScript
    rw [hkind, hframes]
    refine (endStatement_nil (r := r.push _) hframes).2 ⟨nodes, ?_, rfl⟩
    show resolve (_ :: r.chain).reverse = _
    rw [List.reverse_cons, hnodes]

theorem Step.of_enter (bracket : Bracket) (hkind : t.kind = bracket.opener)
    (h : r.enter bracket t = .ok r') : Step r t r' := by
  unfold Reader.enter at h
  split at h
  · simp at h
  · next hdepth =>
    cases h
    exact .enter bracket hkind (Nat.lt_of_not_le hdepth)

theorem Step.of_endScript (hkind : t.kind = .endOfInput) (h : r.endScript t = .ok r') :
    Step r t r' := by
  unfold endScript at h
  split at h
  · next hframes =>
    obtain ⟨nodes, hnodes, rfl⟩ := (endStatement_nil (r := r.push _) hframes).1 h
    refine .endOfInput hkind hframes ?_
    rw [← hnodes]
    show _ = resolve (_ :: r.chain).reverse
    rw [List.reverse_cons]
  · split at h <;> simp at h

theorem Step.of_readItem (h : r.readItem t = .ok r') : Step r t r' := by
  by_cases hword : ∃ item, itemOfKind t.kind = some item ∧ t.kind ≠ .equals
  · obtain ⟨item, hitem, hequals⟩ := hword
    rw [readItem_of_itemOfKind hitem hequals] at h
    cases h
    exact .word hitem hequals
  unfold readItem at h
  split at h
  case h_1 hkind | h_2 hkind | h_3 hkind | h_4 hkind | h_5 hkind | h_6 hkind | h_7 hkind |
      h_8 hkind | h_9 hkind | h_10 hkind =>
    exact absurd ⟨_, by rw [hkind]; rfl, by simp [hkind]⟩ hword
  case h_11 hkind =>
    cases h
    exact .equals hkind
  case h_12 hkind =>
    cases h
    exact .structWord hkind
  case h_13 hkind => exact .of_enter .paren hkind h
  case h_14 hkind => exact .of_enter .square hkind h
  case h_15 hkind => exact .of_enter .brace hkind h
  case h_16 hkind => exact .of_endScript hkind h
  case h_17 => simp at h

theorem Step.of_endChain (hterminator : t.kind = r.terminator) (h : r.endChain t = .ok r') :
    Step r t r' := by
  obtain ⟨hchain, h⟩ := endChain_eq_ok_iff.1 h
  rcases hframes : r.frames with _ | ⟨⟨bracket, opener, outer, body⟩, frames⟩
  · have hsemicolon : r.terminator = .semicolon := by rw [terminator, hframes]
    rw [hframes] at h
    obtain ⟨nodes, hnodes, rfl⟩ := endStatement_eq_ok_iff.1 h
    exact .semicolon hsemicolon (hterminator.trans hsemicolon) hchain hnodes
  · have hbracket : r.terminator = bracket.terminator := by rw [terminator, hframes]
    rw [hframes] at h
    cases bracket with
    | brace =>
      obtain ⟨nodes, hnodes, rfl⟩ := endStatement_eq_ok_iff.1 h
      exact .semicolon hbracket (hterminator.trans hbracket) hchain hnodes
    | paren | square =>
      obtain ⟨nodes, hnodes, rfl⟩ := h
      exact .leave hframes (by simp) (hterminator.trans hbracket) hchain
        (resolveChain_eq_ok.1 hnodes)

/-- **Main theorem.** A token is read when nothing is pending exactly if it does one of the
    steps. -/
theorem readToken_eq_ok_iff : r.readToken t = .ok r' ↔ Step r t r' := by
  refine ⟨fun h => ?_, Step.readToken⟩
  unfold Reader.readToken at h
  split at h
  · next hterminator => exact .of_endChain hterminator h
  · split at h
    · next hbrace =>
      cases hclosable : r.closable? with
      | none => simp [hclosable] at h
      | some block =>
        obtain ⟨⟨bracket, opener, outer, body⟩, frames⟩ := block
        rw [hclosable] at h
        cases h
        obtain ⟨hframes, rfl, hbody, hchain⟩ := closable?_eq_some_iff.1 hclosable
        exact .closeBlock hframes hbrace hbody hchain
    · exact .of_readItem h

theorem read_eq_ok_iff (hr : r.pending = .nothing) : r.read t = .ok r' ↔ Step r t r' := by
  unfold read
  rw [hr]
  exact readToken_eq_ok_iff

end Reader

end ByteBricks.Syntax
