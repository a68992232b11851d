import ByteBricks.Proofs.Syntax.Grammar
import ByteBricks.Proofs.Token.Words

/-! # Derivations of Scripts

  Whatever tokens the reader has read, they are derived up to the delimiters that are
  still open. Every step keeps this, and the end of the source leaves no delimiter open,
  so that a source is read exactly if its tokens are derived from the grammar. -/

namespace ByteBricks.Syntax

/-! ### Fresh Items -/

theorem isFresh_of_itemOfKind {kind : Token.Kind} {item : Origin → Item}
    (h : itemOfKind kind = some item) (o : Origin) : (item o).isFresh := by
  cases kind <;> cases h <;> rfl

theorem IsItem.isFresh {depth k k' : Nat} {ts : List Token} {item : Item}
    (h : IsItem depth k ts item k') : item.isFresh := by
  cases h with
  | word hitem => exact isFresh_of_itemOfKind hitem _
  | compare | structHead => rfl
  | @group _ _ _ bracket => cases bracket <;> rfl

theorem IsBlock.isAtom {depth k k' : Nat} {ts : List Token} {node : Node}
    (h : IsBlock depth k ts node k') : node.isAtom := by
  cases h
  rfl

/-- The items of a derivation were just read. -/
theorem IsItems.isFresh {blocks : Bool} {depth k k' : Nat} {ts : List Token} {items : List Item}
    (h : IsItems blocks depth k ts items k') : ∀ item ∈ items, item.isFresh := by
  -- The rules add items at the end, so the induction takes them off there.
  induction items using List.reverseRecOn generalizing blocks ts k' with
  | nil => simp
  | append_singleton items last ih =>
    generalize hall : items ++ [last] = all at h
    cases h with
    | nil => simp at hall
    | item hitems hitem =>
      obtain ⟨rfl, hlast⟩ := List.append_inj' hall rfl
      cases hlast
      exact List.forall_mem_append.2 ⟨ih hitems, List.forall_mem_singleton.2 hitem.isFresh⟩
    | block hitems hblock =>
      obtain ⟨rfl, hlast⟩ := List.append_inj' hall rfl
      cases hlast
      have hfresh : (Item.tree _).isFresh := hblock.isAtom
      exact List.forall_mem_append.2 ⟨ih hitems, List.forall_mem_singleton.2 hfresh⟩

/-! ### Open Delimiters -/

/-- Whether blocks may stand between the items of the chain inside of the delimiters. -/
def blocksIn : List Frame → Bool
  | [] => false
  | frame :: _ => frame.bracket ≠ .brace

/-- The tokens around the chain that is being read, when they are derived up to the open
    delimiters and `stop` trees have been made. -/
inductive Around : List Frame → List (List Node) → List Token → Nat → Prop
  /-- Outside of all delimiters. -/
  | outside {statements : List (List Node)} {ts : List Token} {k : Nat} :
      IsStatements 0 0 ts statements.reverse k → Around [] statements ts k
  /-- Inside of parentheses or brackets. -/
  | group {bracket : Bracket} {opener : Token} {outer : List Item} {body : List Node}
      {frames : List Frame} {statements : List (List Node)} {ts us : List Token} {k k' : Nat} :
      bracket ≠ .brace → opener.kind = bracket.opener → frames.length < maxDepth →
      Around frames statements ts k →
      IsItems (blocksIn frames) frames.length k us outer.reverse k' →
      Around (⟨bracket, opener, outer, body⟩ :: frames) statements (ts ++ us ++ [opener]) k'
  /-- Between the statements of a block. -/
  | block {opener : Token} {outer : List Item} {frames : List Frame}
      {statements inner : List (List Node)} {ts us vs : List Token} {k k' k'' : Nat} :
      opener.kind = .openBrace → frames.length < maxDepth → Around frames statements ts k →
      IsItems (blocksIn frames) frames.length k us outer.reverse k' →
      IsStatements (frames.length + 1) k' vs inner k'' →
      Around (⟨.brace, opener, outer, inner.flatten.reverse⟩ :: frames) statements
        (ts ++ us ++ opener :: vs) k''

/-- The reader is where tokens that are derived so far lead. -/
inductive Reached : Reader → List Token → Prop
  /-- Behind an item, or at the beginning of a chain. -/
  | nothing {frames : List Frame} {chain : List Item} {statements : List (List Node)}
      {ts us : List Token} {k k' : Nat} : Around frames statements ts k →
      IsItems (blocksIn frames) frames.length k us chain.reverse k' →
      Reached ⟨frames, chain, statements, k', .nothing⟩ (ts ++ us)
  /-- Behind the keyword `struct`. -/
  | structName {frames : List Frame} {chain : List Item} {statements : List (List Node)}
      {ts us : List Token} {k k' : Nat} {word : Token} : Around frames statements ts k →
      IsItems (blocksIn frames) frames.length k us chain.reverse k' → word.kind = .structWord →
      Reached ⟨frames, chain, statements, k', .structName word⟩ (ts ++ us ++ [word])
  /-- Behind an equals sign. -/
  | equals {frames : List Frame} {chain : List Item} {statements : List (List Node)}
      {ts us : List Token} {k k' : Nat} {sign : Token} : Around frames statements ts k →
      IsItems (blocksIn frames) frames.length k us chain.reverse k' → sign.kind = .equals →
      Reached ⟨frames, chain, statements, k', .equals sign⟩ (ts ++ us ++ [sign])
  /-- Behind a block that ends a statement. -/
  | blockEnd {frames : List Frame} {items : List Item} {node : Node}
      {statements : List (List Node)} {ts us vs : List Token} {k k' k'' line : Nat} :
      blocksIn frames = false → Around frames statements ts k →
      IsItems false frames.length k us items k' → IsBlock frames.length k' vs node k'' →
      Reached ⟨frames, .tree node :: items.reverse, statements, k'', .blockEnd line⟩
        (ts ++ us ++ vs)

theorem blocksIn_eq_false_iff {r : Reader} :
    blocksIn r.frames = false ↔ r.terminator = .semicolon := by
  unfold blocksIn Reader.terminator
  rcases r.frames with _ | ⟨⟨bracket, opener, outer, body⟩, frames⟩
  · simp
  · cases bracket <;> simp [Bracket.terminator]

section Steps

variable {frames : List Frame} {chain : List Item} {statements : List (List Node)}
  {ts us vs : List Token} {k k' k'' : Nat} {r r' : Reader} {t : Token}

/-- The reader at the beginning of a chain. -/
theorem Reached.empty (h : Around frames statements ts k) :
    Reached ⟨frames, [], statements, k, .nothing⟩ ts := by
  have hempty : Reached ⟨frames, [], statements, k, .nothing⟩ (ts ++ []) := .nothing h .nil
  rwa [List.append_nil] at hempty

/-- One more item is read. -/
theorem Reached.item {item : Item} (haround : Around frames statements ts k)
    (hchain : IsItems (blocksIn frames) frames.length k us chain.reverse k')
    (hitem : IsItem frames.length k' vs item k'') :
    Reached ⟨frames, item :: chain, statements, k'', .nothing⟩ (ts ++ us ++ vs) := by
  have hitems := hchain.item hitem
  rw [← List.reverse_cons] at hitems
  rw [List.append_assoc]
  exact .nothing haround hitems

/-- A statement is read. -/
theorem Around.ended {nodes : List Node} (haround : Around frames statements ts k)
    (hblocks : blocksIn frames = false) (h : IsStatement frames.length k us nodes k')
    (chain : List Item) (l : Nat) (pending : Pending) :
    Reached (Reader.ended ⟨frames, chain, statements, l, pending⟩ nodes k') (ts ++ us) := by
  unfold Reader.ended
  cases haround with
  | outside hstatements =>
    have hall := hstatements.statement h
    rw [← List.reverse_cons] at hall
    exact .empty (.outside hall)
  | group hbracket => simp [blocksIn, hbracket] at hblocks
  | @block opener outer frames _ inner _ _ _ _ _ _ hopener hroom houter hitems hinner =>
    have hempty := Reached.empty (.block hopener hroom houter hitems (hinner.statement h))
    simpa using hempty

/-- A block is read. -/
theorem Around.closed {outer : List Item} {opener : Token} {body : List Node}
    (haround : Around frames statements ts k)
    (hitems : IsItems (blocksIn frames) frames.length k us outer.reverse k')
    (hblock : IsBlock frames.length k' vs (.block ⟨k'', opener⟩ body.reverse) (k'' + 1))
    (line : Nat) :
    Reached (Reader.closeBlock ⟨⟨.brace, opener, outer, body⟩ :: frames, chain, statements, k'',
      .nothing⟩ ⟨.brace, opener, outer, body⟩ frames line) (ts ++ us ++ vs) := by
  let node : Node := .block ⟨k'', opener⟩ body.reverse
  show Reached (if Reader.terminator ⟨frames, .tree node :: outer, statements, k'' + 1, .nothing⟩ =
      .semicolon then ⟨frames, .tree node :: outer, statements, k'' + 1, .blockEnd line⟩
    else ⟨frames, .tree node :: outer, statements, k'' + 1, .nothing⟩) _
  split
  · next hterminator =>
    have hblocks : blocksIn frames = false := blocksIn_eq_false_iff.2 hterminator
    rw [hblocks] at hitems
    have hend : Reached ⟨_, _ :: outer.reverse.reverse, _, _, .blockEnd line⟩ _ :=
      .blockEnd hblocks haround hitems hblock
    rwa [List.reverse_reverse] at hend
  · next hterminator =>
    have hblocks : blocksIn frames = true :=
      eq_true_of_ne_false fun h => hterminator (blocksIn_eq_false_iff.1 h)
    rw [hblocks] at hitems
    have hmore := hitems.block hblock
    rw [← List.reverse_cons, ← hblocks] at hmore
    rw [List.append_assoc]
    exact .nothing haround hmore

/-- What a token does when nothing is pending is a step of the derivation. -/
theorem Reached.step (h : Reached r ts) (hr : r.pending = .nothing) (hstep : r.Step t r')
    (ht : t.kind ≠ .endOfInput) : Reached r' (ts ++ [t]) := by
  cases h with
  | structName | equals | blockEnd => simp at hr
  | @nothing frames chain statements ts us k k' haround hchain =>
    have hfresh := Flat.inside hchain.isFresh
    cases hstep with
    | word hitem _ => exact .item haround hchain (.word hitem)
    | equals hkind => exact .equals haround hchain hkind
    | structWord hkind => exact .structName haround hchain hkind
    | enter bracket hkind hroom =>
      by_cases hbracket : bracket = .brace
      · subst hbracket
        exact .empty (.block hkind hroom haround hchain .nil)
      · exact .empty (.group hbracket hkind hroom haround hchain)
    | leave hframes hbracket hkind hne hnodes =>
      cases hframes
      cases haround with
      | block => contradiction
      | group _ hopener hroom houter hitems =>
        rw [blocksIn, decide_eq_true hbracket] at hchain
        have hitem := IsItem.group hbracket hroom hopener hkind hchain (by simpa using hne)
          (juxtaposed_of_resolve hfresh hnodes)
        have hread := Reached.item houter hitems hitem
        simp only [List.append_assoc, List.singleton_append] at hread ⊢
        exact hread
    | semicolon hterminator hkind hne hnodes =>
      rw [List.append_assoc]
      have hblocks := blocksIn_eq_false_iff.2 hterminator
      rw [hblocks] at hchain
      exact haround.ended hblocks (.items hchain (by simpa using hne)
        (juxtaposed_of_resolve hfresh hnodes) hkind) _ _ _
    | closeBlock hframes hkind hbody hempty =>
      cases hframes
      cases hempty
      cases haround with
      | group => contradiction
      | @block _ _ _ _ inner _ _ _ _ _ _ hopener hroom houter hitems hinner =>
        obtain ⟨rfl, -, rfl⟩ := hchain.first.resolve_right (by simp)
        have hinner' : inner ≠ [] := by
          rintro rfl
          exact hbody rfl
        have hblock := IsBlock.braces hroom hopener hkind hinner hinner'
        rw [← List.reverse_reverse inner.flatten] at hblock
        simpa using houter.closed hitems hblock t.line
    | endOfInput hkind => contradiction

/-- The end of the source ends the derivation. -/
theorem Reached.last (h : Reached r ts) (hr : r.pending = .nothing) (hstep : r.Step t r')
    (ht : t.kind = .endOfInput) : IsProgram (ts ++ [t]) r'.statements.reverse r'.count := by
  cases h with
  | structName | equals | blockEnd => simp at hr
  | nothing haround hchain =>
    cases hstep with
    | endOfInput _ hframes hnodes =>
      cases hframes
      cases haround with
      | outside hstatements =>
        rw [List.reverse_cons]
        exact .mk hstatements hchain ht (juxtaposed_of_resolve (.last _ hchain.isFresh) hnodes)
    | word hitem => simp [ht, itemOfKind] at hitem
    | equals hkind | structWord hkind => simp [ht] at hkind
    | enter bracket hkind => cases bracket <;> simp [ht, Bracket.opener] at hkind
    | @leave bracket _ _ _ _ _ _ _ hkind => cases bracket <;> simp [ht, Bracket.terminator] at hkind
    | semicolon _ hkind => simp [ht] at hkind
    | closeBlock _ hkind => simp [ht] at hkind

/-- A token first settles what is pending, unless it belongs to it. -/
theorem Reached.settle (h : Reached r ts) (hread : r.read t = .ok r') :
    (t.kind ≠ .endOfInput ∧ Reached r' (ts ++ [t])) ∨
      ∃ v, Reached v ts ∧ v.pending = .nothing ∧ v.Step t r' := by
  cases h with
  | nothing haround hchain =>
    exact .inr ⟨_, .nothing haround hchain, rfl, (Reader.read_eq_ok_iff rfl).1 hread⟩
  | structName haround hchain hword =>
    unfold Reader.read at hread
    dsimp only at hread
    split at hread
    · next hname =>
      cases hread
      refine .inl ⟨by simp [hname], ?_⟩
      rw [List.append_assoc, List.singleton_append]
      exact .item haround hchain (.structHead hword hname)
    · simp at hread
  | equals haround hchain hsign =>
    unfold Reader.read at hread
    dsimp only at hread
    split at hread
    · next htouch =>
      cases hread
      refine .inl ⟨by simp [htouch.1], ?_⟩
      rw [List.append_assoc, List.singleton_append]
      exact .item haround hchain (.compare hsign htouch.1 htouch.2)
    · have hassign : itemOfKind _ = some _ := congrArg itemOfKind hsign
      exact .inr ⟨_, .item haround hchain (.word hassign), rfl, Reader.readToken_eq_ok_iff.1 hread⟩
  | @blockEnd frames items node statements ts us vs k k' k'' line hblocks haround hitems hblock =>
    have hend {line' : Nat} {v : Reader} (hv : Reader.endStatement
        ⟨frames, .tree node :: items.reverse, statements, k'', .blockEnd line⟩ line' = .ok v) :
        ∃ nodes, Juxtaposed (items ++ [.tree node]) nodes ∧ v = Reader.ended
          ⟨frames, .tree node :: items.reverse, statements, k'', .blockEnd line⟩ nodes k'' := by
      obtain ⟨nodes, hnodes, rfl⟩ := Reader.endStatement_eq_ok_iff.1 hv
      have hfresh : (Item.tree node).isFresh := hblock.isAtom
      rw [List.reverse_cons, List.reverse_reverse] at hnodes
      exact ⟨nodes, juxtaposed_of_resolve (.inside (List.forall_mem_append.2
        ⟨hitems.isFresh, List.forall_mem_singleton.2 hfresh⟩)) hnodes, rfl⟩
    unfold Reader.read at hread
    dsimp only at hread
    split at hread
    · next hsemicolon =>
      obtain ⟨nodes, hnodes, rfl⟩ := hend hread
      refine .inl ⟨by simp [hsemicolon], ?_⟩
      have hstatement := haround.ended hblocks
        (.blockSemicolon hitems hblock hnodes hsemicolon) (.tree node :: items.reverse) k''
        (.blockEnd line)
      simp only [List.append_assoc] at hstatement ⊢
      exact hstatement
    · obtain ⟨v, hv, hread⟩ := Reader.bind_eq_ok.1 hread
      obtain ⟨nodes, hnodes, rfl⟩ := hend hv
      have hstatement := haround.ended hblocks (.block hitems hblock hnodes)
        (.tree node :: items.reverse) k'' (.blockEnd line)
      rw [← List.append_assoc] at hstatement
      exact .inr ⟨_, hstatement, Reader.ended_pending _ _, Reader.readToken_eq_ok_iff.1 hread⟩

/-- What holds behind one token holds behind all tokens in front of the end. -/
theorem Reached.readAll {us : List Token} (h : Reached r ts) (hread : r.readAll us = (r', none))
    (hus : ∀ u ∈ us, u.kind ≠ .endOfInput) : Reached r' (ts ++ us) := by
  induction us generalizing r ts with
  | nil =>
    cases hread
    rwa [List.append_nil]
  | cons u us ih =>
    obtain ⟨hu, hus⟩ := List.forall_mem_cons.1 hus
    obtain ⟨v, hv, hread⟩ := Reader.readAll_cons_eq_none.1 hread
    have hnext : Reached v (ts ++ [u]) := by
      rcases h.settle hv with ⟨-, hv⟩ | ⟨w, hw, hready, hstep⟩
      · exact hv
      · exact hw.step hready hstep hu
    have hall := ih hnext hread hus
    rwa [List.append_assoc, List.singleton_append] at hall

end Steps

/-! ### Scripts -/

/-- Tokens that end with the end of the source are read exactly if they are derived. -/
theorem readAll_iff_isProgram {ts : List Token} {e : Token} (he : e.kind = .endOfInput)
    (hts : ∀ t ∈ ts, t.kind ≠ .endOfInput) {statements : List (List Node)} {count : Nat} :
    (∃ r, (Reader.start 0).readAll (ts ++ [e]) = (r, none) ∧ r.statements.reverse = statements ∧
      r.count = count) ↔ IsProgram (ts ++ [e]) statements count := by
  constructor
  · rintro ⟨r, hread, rfl, rfl⟩
    obtain ⟨u, hu, hlast⟩ := Reader.readAll_append.1 hread
    obtain ⟨v, hv, hlast⟩ := Reader.readAll_cons_eq_none.1 hlast
    cases hlast
    have hstart : Reached (Reader.start 0) [] := .empty (.outside .nil)
    have hreached := hstart.readAll hu hts
    rcases hreached.settle hv with ⟨hother, -⟩ | ⟨w, hw, hready, hstep⟩
    · exact absurd he hother
    · exact hw.last hready hstep he
  · intro h
    exact ⟨_, h.readAll, List.reverse_reverse _, rfl⟩

/-- **Main theorem.** A source is a script exactly if it is cut into tokens and they are
    derived from the grammar. Its statements, and the numbers of its trees, are those of the
    derivation. -/
theorem Script.ofSource_iff_isProgram (source : String) (script : Script) :
    Script.ofSource source = .ok script ↔ (Token.scan source).failure = none ∧
      IsProgram (Token.scan source).tokens script.statements script.count := by
  rw [Script.ofSource_eq_ok_iff]
  refine and_congr_right fun hfailure => ?_
  obtain ⟨ts, e, hts, he, hwords⟩ := Token.isLexeme_of_scanFrom _ _ _ hfailure
  have htokens : (Token.scan source).tokens = ts ++ [e] := hts
  rw [htokens, ← readAll_iff_isProgram he fun t ht => (hwords t ht).1]
  constructor
  · rintro ⟨r, hread, rfl⟩
    exact ⟨r, hread, rfl, rfl⟩
  · rintro ⟨r, hread, hstatements, hcount⟩
    obtain ⟨statements, count⟩ := script
    cases hstatements
    cases hcount
    exact ⟨r, hread, rfl⟩

end ByteBricks.Syntax
