import ByteBricks.Proofs.Syntax.Reading
import ByteBricks.Proofs.Token.Words

/-! # Proper Trees

  In the trees of a source, every name is the text of one word, and no block is empty.
  The end of the script is no part of another tree: it is the last tree of the last chain,
  and of no other. -/

namespace ByteBricks.Syntax

open Token (Word)

/-! ### Properness -/

/-- Whether the text of the token is read as a name. -/
def NamesWord (t : Token) : Prop := Word.IsLexeme ⟨.name, t.text⟩

mutual

/-- A tree with words for names, in which no block is empty and the script does not end. -/
def Node.Proper : Node → Prop
  | .name o => NamesWord o.token
  | .structHead _ n => NamesWord n.token
  | .integer _ | .control _ _ => True
  | .paren _ inner => Node.ProperAll inner
  | .block _ body => body ≠ [] ∧ Node.ProperAll body
  | .element _ base index => base.Proper ∧ Node.ProperAll index
  | .binary _ _ lhs rhs => lhs.Proper ∧ rhs.Proper
  | .scriptEnd _ => False

/-- A chain of proper trees. -/
def Node.ProperAll : List Node → Prop
  | [] => True
  | n :: rest => n.Proper ∧ Node.ProperAll rest

end

/-- An item with proper trees. -/
def Item.Proper : Item → Prop
  | .tree n => n.Proper
  | .operator _ _ => True
  | .subscript _ index => Node.ProperAll index

/-- An open delimiter with proper trees in and around it. -/
structure Frame.Proper (f : Frame) : Prop where
  outer : ∀ item ∈ f.outer, item.Proper
  body : Node.ProperAll f.body

/-- A reader whose trees are proper. -/
structure Reader.Proper (r : Reader) : Prop where
  frames : ∀ f ∈ r.frames, f.Proper
  chain : ∀ item ∈ r.chain, item.Proper
  statements : ∀ chain ∈ r.statements, Node.ProperAll chain

theorem Node.properAll_iff {ns : List Node} : Node.ProperAll ns ↔ ∀ n ∈ ns, n.Proper := by
  induction ns with
  | nil => simp [Node.ProperAll]
  | cons n ns ih => rw [Node.ProperAll, ih, List.forall_mem_cons]

@[simp] theorem Node.properAll_append {a b : List Node} :
    Node.ProperAll (a ++ b) ↔ Node.ProperAll a ∧ Node.ProperAll b := by
  simp only [Node.properAll_iff, List.forall_mem_append]

@[simp] theorem Node.properAll_reverse {ns : List Node} :
    Node.ProperAll ns.reverse ↔ Node.ProperAll ns := by
  simp only [Node.properAll_iff, List.mem_reverse]

/-! ### Chains -/

theorem proper_of_resolveLevel {level : Nat} {items out : List Item}
    (h : resolveLevel level [] items = .ok out) (hitems : ∀ item ∈ items, item.Proper) :
    ∀ item ∈ out, item.Proper := by
  refine forall_of_resolveLevel (fun _ hitem _ => hitem) ?_ ?_ h (by simp) hitems
  · intro o base index _ hbase hindex
    rw [Item.Proper, Node.Proper]
    exact ⟨hbase, hindex⟩
  · intro o op lhs rhs _ hlhs hrhs
    rw [Item.Proper, Node.Proper]
    exact ⟨hlhs, hrhs⟩

/-- The trees that a chain is resolved to are made from its items. -/
theorem proper_of_resolve {items : List Item} {nodes : List Node} (h : resolve items = .ok nodes)
    (hitems : ∀ item ∈ items, item.Proper) : Node.ProperAll nodes := by
  have hout := resolve_induction
    (R := fun items out => (∀ item ∈ items, item.Proper) → ∀ item ∈ out, item.Proper)
    (fun _ => id) (fun hlevel ih hitems => ih (proper_of_resolveLevel hlevel hitems)) h hitems
  exact Node.properAll_iff.2 fun n hn => hout _ (List.mem_map_of_mem hn)

/-! ### Reading -/

namespace Reader

variable {r r' : Reader} {t : Token}

theorem Proper.push {item : Item} (hr : r.Proper) (hitem : item.Proper) : (r.push item).Proper :=
  ⟨hr.frames, List.forall_mem_cons.2 ⟨hitem, hr.chain⟩, hr.statements⟩

theorem Proper.leave {outer : List Item} {frames : List Frame} {item : Item} (hr : r.Proper)
    (houter : ∀ item ∈ outer, item.Proper) (hframes : ∀ f ∈ frames, f.Proper)
    (hitem : item.Proper) : (r.leave outer frames item).Proper :=
  .push ⟨hframes, houter, hr.statements⟩ hitem

/-- The trees of the chain that is being read. -/
theorem Proper.resolveChain {line : Nat} {nodes : List Node} (hr : r.Proper)
    (h : r.resolveChain line = .ok nodes) : Node.ProperAll nodes := by
  refine proper_of_resolve (resolveChain_eq_ok.1 h) fun item hitem => ?_
  exact hr.chain item (List.mem_reverse.1 hitem)

theorem Proper.endStatement {line : Nat} (hr : r.Proper) (h : r.endStatement line = .ok r') :
    r'.Proper := by
  unfold Reader.endStatement at h
  obtain ⟨nodes, hnodes, h⟩ := bind_eq_ok.1 h
  have hproper := hr.resolveChain hnodes
  split at h
  · cases h
    exact ⟨hr.frames, by simp, List.forall_mem_cons.2 ⟨hproper, hr.statements⟩⟩
  · next frame frames hframes =>
    cases h
    have hall := hr.frames
    rw [hframes] at hall
    obtain ⟨hframe, hrest⟩ := List.forall_mem_cons.1 hall
    refine ⟨List.forall_mem_cons.2 ⟨⟨hframe.outer, ?_⟩, hrest⟩, by simp, hr.statements⟩
    show Node.ProperAll (nodes.reverse ++ frame.body)
    simpa using ⟨hproper, hframe.body⟩

theorem Proper.endChain (hr : r.Proper) (h : r.endChain t = .ok r') : r'.Proper := by
  obtain ⟨-, h⟩ := endChain_eq_ok_iff.1 h
  have hall := hr.frames
  rcases hframes : r.frames with _ | ⟨⟨bracket, opener, outer, body⟩, frames⟩
  · rw [hframes] at h
    exact hr.endStatement h
  rw [hframes] at h hall
  obtain ⟨hframe, hrest⟩ := List.forall_mem_cons.1 hall
  cases bracket with
  | brace => exact hr.endStatement h
  | paren =>
    obtain ⟨nodes, hnodes, rfl⟩ := h
    refine hr.leave hframe.outer hrest ?_
    rw [Item.Proper, Node.Proper]
    exact hr.resolveChain hnodes
  | square =>
    obtain ⟨nodes, hnodes, rfl⟩ := h
    exact hr.leave hframe.outer hrest (hr.resolveChain hnodes)

/-- A block is only closed behind a statement. -/
theorem Proper.closeBlock {frame : Frame} {frames : List Frame} {line : Nat} (hr : r.Proper)
    (h : r.closable? = some (frame, frames)) : (r.closeBlock frame frames line).Proper := by
  unfold Reader.closable? at h
  split at h
  case h_2 => simp at h
  next frame' frames' hframes =>
  split at h
  case isFalse => simp at h
  next hclosable =>
  cases h
  have hall := hr.frames
  rw [hframes] at hall
  obtain ⟨hframe, hrest⟩ := List.forall_mem_cons.1 hall
  have hblock : (Item.tree (.block (r.origin frame.opener) frame.body.reverse)).Proper := by
    rw [Item.Proper, Node.Proper]
    exact ⟨by simpa using hclosable.2.1, by simpa using hframe.body⟩
  have hleft := hr.leave hframe.outer hrest hblock
  unfold Reader.closeBlock
  dsimp only
  split
  · exact ⟨hleft.frames, hleft.chain, hleft.statements⟩
  · exact hleft

theorem Proper.pushOperator {op : BinaryOp} (hr : r.Proper) (h : r.pushOperator t op = .ok r') :
    r'.Proper := by
  cases h
  exact hr.push trivial

theorem Proper.readItem (hr : r.Proper) (ht : t.kind ≠ .endOfInput) (hword : t.word.IsLexeme)
    (h : r.readItem t = .ok r') : r'.Proper := by
  unfold Reader.readItem at h
  split at h
  case h_1 hkind =>
    cases h
    refine hr.push ?_
    rw [Item.Proper, Node.Proper, NamesWord, ← hkind]
    exact hword
  case h_2 | h_3 | h_4 | h_5 =>
    cases h
    refine hr.push ?_
    rw [Item.Proper, Node.Proper]
    trivial
  case h_6 | h_7 | h_8 | h_9 | h_10 => exact hr.pushOperator h
  case h_11 | h_12 =>
    cases h
    exact ⟨hr.frames, hr.chain, hr.statements⟩
  case h_13 | h_14 | h_15 =>
    unfold Reader.enter at h
    split at h
    · simp at h
    · cases h
      refine ⟨List.forall_mem_cons.2 ⟨⟨hr.chain, ?_⟩, hr.frames⟩, by simp, hr.statements⟩
      rw [Node.ProperAll]
      trivial
  case h_16 hkind => exact absurd hkind ht
  case h_17 => simp at h

theorem Proper.readToken (hr : r.Proper) (ht : t.kind ≠ .endOfInput) (hword : t.word.IsLexeme)
    (h : r.readToken t = .ok r') : r'.Proper := by
  unfold Reader.readToken at h
  split at h
  · exact hr.endChain h
  split at h
  · split at h
    · next frame frames hclosable =>
      cases h
      exact hr.closeBlock hclosable
    · simp at h
  · exact hr.readItem ht hword h

theorem Proper.read (hr : r.Proper) (ht : t.kind ≠ .endOfInput) (hword : t.word.IsLexeme)
    (h : r.read t = .ok r') : r'.Proper := by
  unfold Reader.read at h
  split at h
  · exact hr.readToken ht hword h
  · split at h
    · next hkind =>
      cases h
      refine .push ⟨hr.frames, hr.chain, hr.statements⟩ ?_
      rw [Item.Proper, Node.Proper, NamesWord, ← hkind]
      exact hword
    · simp at h
  · split at h
    · exact hr.pushOperator h
    · obtain ⟨u, hu, h⟩ := bind_eq_ok.1 h
      exact (hr.pushOperator hu).readToken ht hword h
  · split at h
    · exact hr.endStatement h
    · obtain ⟨u, hu, h⟩ := bind_eq_ok.1 h
      exact (hr.endStatement hu).readToken ht hword h

/-- Up to the end of the source, the trees of a reader are proper. -/
theorem Proper.readAll {ts : List Token} (hr : r.Proper)
    (hts : ∀ t ∈ ts, t.kind ≠ .endOfInput ∧ t.word.IsLexeme) (h : r.readAll ts = (r', none)) :
    r'.Proper := by
  induction ts generalizing r with
  | nil =>
    cases h
    exact hr
  | cons t ts ih =>
    obtain ⟨u, hu, h⟩ := readAll_cons_eq_none.1 h
    obtain ⟨⟨ht, hword⟩, hts⟩ := List.forall_mem_cons.1 hts
    exact ih (hr.read ht hword hu) hts h

/-- The end of the source is the last tree of the last chain. -/
theorem Proper.readEnd (hr : r.Proper) (ht : t.kind = .endOfInput) (h : r.read t = .ok r') :
    ∃ before last o, r'.statements = (last ++ [.scriptEnd o]) :: before ∧
      Node.ProperAll last ∧ ∀ chain ∈ before, Node.ProperAll chain := by
  have htoken {u : Reader} (hu : u.Proper) (h : u.readToken t = .ok r') :
      ∃ before last o, r'.statements = (last ++ [.scriptEnd o]) :: before ∧
        Node.ProperAll last ∧ ∀ chain ∈ before, Node.ProperAll chain := by
    obtain ⟨-, nodes, hstatements, hnodes⟩ := readToken_endOfInput ht h
    obtain ⟨last, hlast, rfl⟩ := resolve_scriptEnd.1 hnodes
    have hproper := proper_of_resolve hlast fun item hitem =>
      hu.chain item (List.mem_reverse.1 hitem)
    exact ⟨u.statements, last, _, hstatements, hproper, hu.statements⟩
  -- Whatever the reader has waited for is added first, and leaves it proper.
  unfold Reader.read at h
  split at h
  · exact htoken hr h
  · simp [ht] at h
  · rw [if_neg (by simp [ht])] at h
    obtain ⟨u, hu, h⟩ := bind_eq_ok.1 h
    exact htoken (hr.pushOperator hu) h
  · rw [if_neg (by simp [ht])] at h
    obtain ⟨u, hu, h⟩ := bind_eq_ok.1 h
    exact htoken (hr.endStatement hu) h

end Reader

/-- **Main theorem.** The trees of a script are proper but for the last one, which is the end
    of the script. -/
theorem Script.proper_of_ofSource {source : String} {script : Script}
    (h : Script.ofSource source = .ok script) :
    ∃ before last o, script.statements = before ++ [last ++ [.scriptEnd o]] ∧
      (∀ chain ∈ before, Node.ProperAll chain) ∧ Node.ProperAll last := by
  obtain ⟨hfailure, r, hr, rfl⟩ := Script.ofSource_eq_ok_iff.1 h
  obtain ⟨ts, e, hts, he, hwords⟩ := Token.isLexeme_of_scanFrom _ _ _ hfailure
  have htokens : (Token.scan source).tokens = ts ++ [e] := hts
  rw [htokens] at hr
  obtain ⟨u, hu, hend⟩ := Reader.readAll_append.1 hr
  obtain ⟨v, hv, hend⟩ := Reader.readAll_cons_eq_none.1 hend
  cases hend
  have hstart : (Reader.start 0).Proper := by constructor <;> simp [Reader.start]
  obtain ⟨before, last, o, hstatements, hlast, hbefore⟩ := (hstart.readAll hwords hu).readEnd he hv
  refine ⟨before.reverse, last, o, ?_, fun chain hchain => ?_, hlast⟩
  · simp [hstatements]
  · exact hbefore chain (List.mem_reverse.1 hchain)

end ByteBricks.Syntax
