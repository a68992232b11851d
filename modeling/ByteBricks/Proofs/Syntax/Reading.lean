import ByteBricks.Proofs.Syntax.Relabel
import ByteBricks.Proofs.Token.Scan
import ByteBricks.Syntax.Script

/-! # Reading One Source Behind Another

  The reader keeps no memory of finished statements: tokens that it reads behind them
  give the trees that they give at the start, but for the numbers of the trees and the
  places of their tokens. -/

namespace ByteBricks.Syntax

/-! ### Moved Tokens -/

/-- The labels of the same tokens and trees with others in front. -/
def Relabelling.moved (d : Shift) : Relabelling where
  token := Token.shift d
  line := (· + d.lines)
  number := (· + d.trees)
  kind_token _ := rfl
  line_token _ := rfl
  token_comparison _ _ := rfl
  number_succ n := Nat.add_right_comm n 1 d.trees

variable {d : Shift}

/-! ### Steps of the Reader -/

theorem Reader.bind_eq_ok {α β : Type} {x : Except Error α} {f : α → Except Error β} {b : β} :
    (x >>= f) = .ok b ↔ ∃ a, x = .ok a ∧ f a = .ok b := by
  cases x <;> simp [bind, Except.bind]

namespace Reader

variable {before : List (List Node)} {r r' : Reader} {t : Token}

theorem resolveChain_eq_ok {line : Nat} {nodes : List Node} :
    r.resolveChain line = .ok nodes ↔ resolve r.chain.reverse = .ok nodes := by
  unfold resolveChain
  cases resolve r.chain.reverse <;> simp

/-- What ends a chain depends on the innermost delimiter. -/
theorem endChain_eq_ok_iff :
    r.endChain t = .ok r' ↔ r.chain ≠ [] ∧
      match r.frames with
      | ⟨.paren, opener, outer, _⟩ :: frames =>
        ∃ nodes, r.resolveChain t.line = .ok nodes ∧
          r' = r.leave outer frames (.tree (.paren (r.origin opener) nodes))
      | ⟨.square, opener, outer, _⟩ :: frames =>
        ∃ nodes, r.resolveChain t.line = .ok nodes ∧
          r' = r.leave outer frames (.subscript (r.origin opener) nodes)
      | _ => r.endStatement t.line = .ok r' := by
  unfold endChain
  cases hchain : r.chain with
  | nil => simp [throw, throwThe, MonadExceptOf.throw, bind, Except.bind]
  | cons item chain =>
    simp only [List.isEmpty_cons, Bool.false_eq_true, if_false, ne_eq, reduceCtorEq,
      not_false_eq_true, true_and]
    rcases r.frames with _ | ⟨⟨bracket, opener, outer, body⟩, frames⟩
    · rfl
    · cases bracket
      case brace => rfl
      all_goals
        refine bind_eq_ok.trans (exists_congr fun nodes => and_congr_right fun _ => ?_)
        simp [pure, Except.pure, eq_comm]

/-- Both signs of a comparison move as far, so they still touch if they did. -/
theorem joins_moved (r : Reader) (t : Token) :
    (r.relabel (.moved d) before).joins (t.shift d) = r.joins t := by
  obtain ⟨frames, chain, statements, count, pending⟩ := r
  cases pending with
  | equals sign =>
    show ((t.shift d).kind == .equals && (t.shift d).start == (sign.shift d).stop) =
      (t.kind == .equals && t.start == sign.stop)
    rw [Token.shift_kind, Token.shift_start, Token.shift_stop, Bool.eq_iff_iff]
    simp
  | nothing | structName word | blockEnd line => rfl

/-- A token is read as it is read at the start. -/
theorem read_moved (h : r.read t = .ok r') :
    (r.relabel (.moved d) before).read (t.shift d) = .ok (r'.relabel (.moved d) before) := by
  rw [read_eq_readJoined] at h
  rw [read_eq_readJoined, joins_moved]
  refine (readJoined_relabel r (r.joins t) t).trans ?_
  rw [h]
  rfl

theorem readAll_cons_eq_none {ts : List Token} :
    r.readAll (t :: ts) = (r', none) ↔ ∃ u, r.read t = .ok u ∧ u.readAll ts = (r', none) := by
  rw [readAll]
  cases r.read t <;> simp

theorem readAll_moved {ts : List Token} (h : r.readAll ts = (r', none)) :
    (r.relabel (.moved d) before).readAll (ts.map (Token.shift d)) =
      (r'.relabel (.moved d) before, none) := by
  induction ts generalizing r with
  | nil =>
    cases h
    rfl
  | cons t ts ih =>
    obtain ⟨u, hu, h⟩ := readAll_cons_eq_none.1 h
    exact readAll_cons_eq_none.2 ⟨_, read_moved hu, ih h⟩

theorem readAll_append {ts us : List Token} :
    r.readAll (ts ++ us) = (r', none) ↔
      ∃ u, r.readAll ts = (u, none) ∧ u.readAll us = (r', none) := by
  induction ts generalizing r with
  | nil => simp [readAll]
  | cons t ts ih =>
    rw [List.cons_append, readAll_cons_eq_none]
    simp only [ih, readAll_cons_eq_none]
    constructor
    · intro h
      obtain ⟨v, hv, u, hu, h⟩ := h
      exact ⟨u, ⟨v, hv, hu⟩, h⟩
    · intro h
      obtain ⟨u, ⟨v, hv, hu⟩, h⟩ := h
      exact ⟨v, hv, u, hu, h⟩

/-! ### Between Two Sources -/

theorem endStatement_nil {line : Nat} (hframes : r.frames = []) :
    r.endStatement line = .ok r' ↔ ∃ nodes, resolve r.chain.reverse = .ok nodes ∧
      r' = ⟨[], [], nodes :: r.statements, r.count, .nothing⟩ := by
  unfold endStatement
  refine bind_eq_ok.trans (exists_congr fun nodes => and_congr resolveChain_eq_ok ?_)
  rw [hframes]
  simp [pure, Except.pure, eq_comm]

/-- The source may only end outside of all delimiters. -/
theorem readToken_endOfInput (ht : t.kind = .endOfInput)
    (h : r.readToken t = .ok r') :
    r.frames = [] ∧ ∃ nodes, r'.statements = nodes :: r.statements ∧
      resolve (r.chain.reverse ++ [.tree (.scriptEnd (r.origin t))]) = .ok nodes := by
  -- The end of the source closes no delimiter.
  have hterminator : t.kind ≠ r.terminator := by
    rw [ht]
    unfold terminator
    split
    · simp
    · next frame _ _ => cases frame.bracket <;> simp [Bracket.terminator]
  unfold readToken at h
  rw [if_neg hterminator, if_neg (by simp [ht])] at h
  unfold readItem at h
  rw [ht] at h
  dsimp only at h
  unfold endScript at h
  split at h
  · next hframes =>
    obtain ⟨nodes, hnodes, rfl⟩ := (endStatement_nil (r := r.push _) hframes).1 h
    refine ⟨hframes, nodes, rfl, ?_⟩
    rw [← hnodes]
    show _ = resolve (_ :: r.chain).reverse
    rw [List.reverse_cons]
  · split at h <;> simp at h

/-- If the end of the source makes a chain of its own, the reader is between two statements
    in front of it. -/
theorem readToken_scriptEnd {o : Origin} {before : List (List Node)} (ht : t.kind = .endOfInput)
    (h : r.readToken t = .ok r') (hend : r'.statements = [.scriptEnd o] :: before) :
    r.frames = [] ∧ r.chain = [] ∧ r.statements = before := by
  obtain ⟨hframes, nodes, hstatements, hresolve⟩ := readToken_endOfInput ht h
  obtain ⟨rfl, hbefore⟩ := List.cons.inj (hstatements.symm.trans hend)
  exact ⟨hframes, by simpa using eq_nil_of_resolve_scriptEnd hresolve, hbefore⟩

/-- Any token but a semicolon is then read like the first one of a source. -/
theorem read_between {o : Origin} (ht : t.kind = .endOfInput) (h : r.read t = .ok r')
    (hend : r'.statements = [.scriptEnd o] :: before) :
    ∃ count, ∀ d : Shift, d.trees = count → ∀ u : Token, u.kind ≠ .semicolon →
      r.read u = ((start 0).relabel (.moved d) before).read u := by
  have hstart {v : Reader} (hv : v.frames = [] ∧ v.chain = [] ∧ v.statements = before)
      (hpending : v.pending = .nothing) {d : Shift} (hd : d.trees = v.count) :
      v = (start 0).relabel (.moved d) before := by
    obtain ⟨frames, chain, statements, count, pending⟩ := v
    obtain ⟨rfl, rfl, rfl⟩ := hv
    obtain rfl := hpending
    simp [relabel, start, Pending.relabel, Relabelling.moved, hd]
  unfold read at h
  cases hp : r.pending with
  | nothing =>
    rw [hp] at h
    refine ⟨r.count, fun d hd u hu => ?_⟩
    rw [← hstart (readToken_scriptEnd ht h hend) hp hd]
  | structName word =>
    rw [hp] at h
    simp [ht] at h
  | equals sign =>
    -- The chain has the equals sign in front of the end.
    rw [hp] at h
    dsimp only at h
    rw [if_neg (by simp [ht])] at h
    obtain ⟨v, hv, h⟩ := bind_eq_ok.1 h
    cases hv
    obtain ⟨-, hchain, -⟩ := readToken_scriptEnd ht h hend
    simp [push] at hchain
  | blockEnd line =>
    rw [hp] at h
    dsimp only at h
    rw [if_neg (by simp [ht])] at h
    obtain ⟨v, hv, h⟩ := bind_eq_ok.1 h
    -- The statement of the block is ended by either token before the token itself is read.
    have hready := readToken_scriptEnd ht h hend
    have hpending : v.pending = .nothing := by
      unfold endStatement at hv
      obtain ⟨nodes, -, hv⟩ := bind_eq_ok.1 hv
      split at hv <;> cases hv <;> rfl
    refine ⟨v.count, fun d hd u hu => ?_⟩
    rw [← hstart hready hpending hd]
    unfold read
    rw [hp, hpending]
    dsimp only
    rw [if_neg hu, hv]
    rfl

end Reader

/-! ### Scripts -/

/-- A source whose tokens can all be read. -/
theorem Script.ofSource_eq_ok_iff {source : String} {script : Script} :
    Script.ofSource source = .ok script ↔ (Token.scan source).failure = none ∧
      ∃ r, (Reader.start 0).readAll (Token.scan source).tokens = (r, none) ∧
        script = ⟨r.statements.reverse, r.count⟩ := by
  unfold ofSource readFrom
  rcases (Reader.start 0).readAll (Token.scan source).tokens with ⟨r, _ | e⟩
  · cases (Token.scan source).failure <;> simp [eq_comm]
  · simp

/-- A script does not begin with a semicolon. -/
theorem Reader.start_read_kind {count : Nat} {t : Token} {r : Reader}
    (h : (Reader.start count).read t = .ok r) : t.kind ≠ .semicolon := by
  intro hkind
  have hread : (Reader.start count).read t = .error ⟨t.line, .emptyExpression t.kind⟩ := by
    show (Reader.start count).readToken t = _
    unfold readToken
    rw [if_pos (show t.kind = (Reader.start count).terminator from hkind)]
    rfl
  rw [hread] at h
  simp at h

/-- **Main theorem.** If the end of a source makes a chain of its own, another source behind
    a line feed adds its statements in the place of that chain. -/
theorem Script.ofSource_append {a b : String} {sa sb : Script} {o : Origin}
    {before : List (List Node)} (ha : ofSource a = .ok sa) (hb : ofSource b = .ok sb)
    (hend : sa.statements = before ++ [[.scriptEnd o]]) :
    ∃ d count, ofSource (a ++ "\n" ++ b) =
      .ok ⟨before ++ sb.statements.map (Node.relabelAll (.moved d)), count⟩ := by
  obtain ⟨hfailure, r, hr, rfl⟩ := ofSource_eq_ok_iff.1 ha
  obtain ⟨hfailure', r', hr', rfl⟩ := ofSource_eq_ok_iff.1 hb
  obtain ⟨ts, e, hts, he, lines, hscan⟩ := Token.scan_append hfailure
  rw [hts] at hr
  obtain ⟨u, hu, hlast⟩ := Reader.readAll_append.1 hr
  obtain ⟨v, hv, hlast⟩ := Reader.readAll_cons_eq_none.1 hlast
  have hstatements : v.statements = [.scriptEnd o] :: before.reverse := by
    have hreverse := congrArg List.reverse hend
    cases hlast
    simpa using hreverse
  obtain ⟨count, hbetween⟩ := Reader.read_between he hv hstatements
  let d : Shift := ⟨a.utf8ByteSize + 1, lines, count⟩
  have hread : u.readAll ((Token.scan b).tokens.map (Token.shift d)) =
      (r'.relabel (.moved d) before.reverse, none) := by
    have hbehind : ((Reader.start 0).relabel (.moved d) before.reverse).readAll _ = _ :=
      Reader.readAll_moved hr'
    obtain ⟨ts', e', hts', -⟩ := Token.scan_append hfailure'
    -- The first token of the second source decides that the reader is between statements.
    cases htokens : (Token.scan b).tokens with
    | nil => simp [hts'] at htokens
    | cons t rest =>
      rw [htokens] at hbehind hr'
      obtain ⟨w, hw, -⟩ := Reader.readAll_cons_eq_none.1 hr'
      have hkind := Reader.start_read_kind hw
      have hfirst := hbetween d rfl (t.shift d) hkind
      obtain ⟨x, hx, hrest⟩ := Reader.readAll_cons_eq_none.1 hbehind
      exact Reader.readAll_cons_eq_none.2 ⟨x, hfirst.trans hx, hrest⟩
  refine ⟨d, (r'.relabel (.moved d) before.reverse).count, ofSource_eq_ok_iff.2 ?_⟩
  rw [hscan b d rfl rfl]
  refine ⟨?_, r'.relabel (.moved d) before.reverse, Reader.readAll_append.2 ⟨u, hu, hread⟩, ?_⟩
  · simp [Token.Scan.shift, hfailure']
  · simp [Reader.relabel]

end ByteBricks.Syntax
