import ByteBricks.Proofs.Syntax.Builder
import ByteBricks.Proofs.Token.Lines
import ByteBricks.Proofs.Token.Words

/-! # Open Delimiters

  Which delimiters are open behind some tokens can be told from the tokens alone, without
  their grammar: an opening delimiter is open until the delimiter of its kind that closes it.
  The reader keeps the delimiters that are open as a stack. No step lets the stack and the
  tokens disagree, so what an error says about the stack is true of the tokens. Main statement:
  the nesting is too deep only at the 129th delimiter that is open at once, and a source that
  ends too early is reported with the innermost delimiter that it leaves open, on the line of
  that delimiter. -/

namespace ByteBricks.Syntax

open Token (lineAt lineAt_le lineBehind maxLine quotedFeeds)

/-! ### Delimiters of Tokens -/

/-- The token that closes the delimiter. -/
def Bracket.closer : Bracket → Token.Kind
  | .paren => .closeParen
  | .square => .closeBracket
  | .brace => .closeBrace

/-- The delimiters. -/
def Bracket.all : List Bracket := [.paren, .square, .brace]

/-- The delimiter that a token of the kind opens. -/
def Bracket.openedBy? (kind : Token.Kind) : Option Bracket := all.find? (·.opener = kind)

/-- The delimiter that a token of the kind closes. -/
def Bracket.closedBy? (kind : Token.Kind) : Option Bracket := all.find? (·.closer = kind)

/-- A token of the kind opens and closes nothing. -/
def IsPlain (kind : Token.Kind) : Prop :=
  Bracket.openedBy? kind = none ∧ Bracket.closedBy? kind = none

instance (kind : Token.Kind) : Decidable (IsPlain kind) :=
  inferInstanceAs (Decidable (_ ∧ _))

theorem Bracket.openedBy?_eq_some_iff {kind : Token.Kind} {bracket : Bracket} :
    openedBy? kind = some bracket ↔ kind = bracket.opener := by
  cases kind <;> cases bracket <;> decide

theorem Bracket.closedBy?_eq_some_iff {kind : Token.Kind} {bracket : Bracket} :
    closedBy? kind = some bracket ↔ kind = bracket.closer := by
  cases kind <;> cases bracket <;> decide

theorem Bracket.openedBy?_closer (bracket : Bracket) : openedBy? bracket.closer = none := by
  cases bracket <;> rfl

/-! ### Open Delimiters of Tokens -/

/-- The delimiters that are open behind a token, innermost first, when `opened` are open in
    front of it. It may only close the innermost one. -/
def passDelimiter (opened : List Token) (t : Token) : Option (List Token) :=
  if (Bracket.openedBy? t.kind).isSome then some (t :: opened)
  else
    match Bracket.closedBy? t.kind, opened with
    | none, _ => some opened
    | some bracket, o :: outer => if o.kind = bracket.opener then some outer else none
    | some _, [] => none

/-- The delimiters that the tokens leave open, innermost first. There are none if a token
    closes a delimiter that is not the innermost one. -/
def openDelimiters? (ts : List Token) : Option (List Token) := ts.foldlM passDelimiter []

section Tokens

variable {opened opened' outer os base : List Token} {o t : Token} {ts us : List Token}
  {bracket : Bracket}

theorem pass_opener (h : t.kind = bracket.opener) :
    passDelimiter opened t = some (t :: opened) := by
  unfold passDelimiter
  rw [Bracket.openedBy?_eq_some_iff.2 h]
  exact if_pos rfl

theorem pass_closer (h : t.kind = bracket.closer) (ho : o.kind = bracket.opener) :
    passDelimiter (o :: outer) t = some outer := by
  unfold passDelimiter
  rw [h, Bracket.openedBy?_closer, if_neg (by simp), Bracket.closedBy?_eq_some_iff.2 rfl]
  exact if_pos ho

theorem pass_plain (h : IsPlain t.kind) : passDelimiter opened t = some opened := by
  unfold passDelimiter
  rw [h.1, h.2, if_neg (by simp)]

/-- A token opens a delimiter, closes the innermost one, or does neither. -/
theorem pass_cases (h : passDelimiter opened t = some opened') :
    (∃ bracket : Bracket, t.kind = bracket.opener ∧ opened' = t :: opened) ∨
    (∃ (bracket : Bracket) (o : Token), t.kind = bracket.closer ∧ o.kind = bracket.opener ∧
      opened = o :: opened') ∨
    (IsPlain t.kind ∧ opened' = opened) := by
  unfold passDelimiter at h
  split at h
  · next hopener =>
    obtain ⟨bracket, hbracket⟩ := Option.isSome_iff_exists.1 hopener
    exact .inl ⟨bracket, Bracket.openedBy?_eq_some_iff.1 hbracket, (Option.some.inj h).symm⟩
  next hopener =>
  split at h
  · next hcloser =>
    exact .inr (.inr ⟨⟨by simpa using hopener, hcloser⟩, (Option.some.inj h).symm⟩)
  · next bracket o outer hcloser =>
    obtain ⟨ho, h⟩ := Option.ite_none_right_eq_some.1 h
    refine .inr (.inl ⟨bracket, o, Bracket.closedBy?_eq_some_iff.1 hcloser, ho, ?_⟩)
    rw [Option.some.inj h]
  · simp at h

/-- What is open further out does not matter to what happens inside of it. -/
theorem pass_frame (h : passDelimiter opened t = some opened') (base : List Token) :
    passDelimiter (opened ++ base) t = some (opened' ++ base) := by
  rcases pass_cases h with ⟨bracket, ht, rfl⟩ | ⟨bracket, o, ht, ho, rfl⟩ | ⟨ht, rfl⟩
  · exact pass_opener ht
  · exact pass_closer ht ho
  · exact pass_plain ht

theorem foldlM_frame (h : ts.foldlM passDelimiter opened = some opened') (base : List Token) :
    ts.foldlM passDelimiter (opened ++ base) = some (opened' ++ base) := by
  induction ts generalizing opened with
  | nil =>
    cases h
    rfl
  | cons t ts ih =>
    rw [List.foldlM_cons] at h ⊢
    obtain ⟨next, hnext, h⟩ := Option.bind_eq_some_iff.1 h
    rw [pass_frame hnext]
    exact ih h

theorem openDelimiters?_append_eq_some_iff :
    openDelimiters? (ts ++ us) = some opened' ↔
      ∃ opened, openDelimiters? ts = some opened ∧
        us.foldlM passDelimiter opened = some opened' := by
  unfold openDelimiters?
  rw [List.foldlM_append]
  exact Option.bind_eq_some_iff

theorem openDelimiters?_concat_eq_some_iff :
    openDelimiters? (ts ++ [t]) = some opened' ↔
      ∃ opened, openDelimiters? ts = some opened ∧ passDelimiter opened t = some opened' := by
  rw [openDelimiters?_append_eq_some_iff]
  simp only [List.foldlM_cons, List.foldlM_nil, bind_pure]

/-- What leaves nothing open changes nothing. -/
theorem openDelimiters?_append (hts : openDelimiters? ts = some opened)
    (hus : openDelimiters? us = some []) : openDelimiters? (ts ++ us) = some opened :=
  openDelimiters?_append_eq_some_iff.2 ⟨opened, hts, foldlM_frame hus opened⟩

theorem openDelimiters?_enter (hts : openDelimiters? ts = some opened)
    (ht : t.kind = bracket.opener) : openDelimiters? (ts ++ [t]) = some (t :: opened) :=
  openDelimiters?_concat_eq_some_iff.2 ⟨opened, hts, pass_opener ht⟩

/-- The innermost open delimiter is the last one that only balanced tokens follow. -/
theorem exists_inside_of_openDelimiters? (h : openDelimiters? ts = some (o :: os)) :
    ∃ before inside, ts = before ++ o :: inside ∧ (∃ bracket : Bracket, o.kind = bracket.opener) ∧
      openDelimiters? before = some os ∧ openDelimiters? inside = some [] := by
  -- The induction is on the length: a group at the end is taken off as a whole.
  induction hlength : ts.length using Nat.strong_induction_on generalizing ts o os with
  | _ length ih =>
  rcases List.eq_nil_or_concat ts with rfl | ⟨us, t, rfl⟩
  · cases h
  rw [List.concat_eq_append] at h hlength ⊢
  rw [List.length_append, List.length_singleton] at hlength
  obtain ⟨opened, hus, ht⟩ := openDelimiters?_concat_eq_some_iff.1 h
  rcases pass_cases ht with ⟨bracket, hkind, hopened⟩ | ⟨bracket, c, hkind, hc, rfl⟩ | ⟨hkind, rfl⟩
  · cases hopened
    exact ⟨us, [], rfl, ⟨bracket, hkind⟩, hus, rfl⟩
  · obtain ⟨front, group, rfl, -, hfront, hgroup⟩ := ih us.length (by omega) hus rfl
    rw [List.length_append] at hlength
    obtain ⟨before, inside, rfl, ho, hbefore, hinside⟩ := ih front.length (by omega) hfront rfl
    refine ⟨before, inside ++ c :: (group ++ [t]), by simp, ho, hbefore, ?_⟩
    have hclosed : openDelimiters? (c :: (group ++ [t])) = some [] := by
      have hstart : openDelimiters? [] = some [] := rfl
      have hopen : openDelimiters? ([c] ++ group) = some [c] :=
        openDelimiters?_append (openDelimiters?_enter hstart hc) hgroup
      exact openDelimiters?_concat_eq_some_iff.2 ⟨[c], hopen, pass_closer hkind hc⟩
    exact openDelimiters?_append hinside hclosed
  · obtain ⟨before, inside, rfl, ho, hbefore, hinside⟩ := ih us.length (by omega) hus rfl
    refine ⟨before, inside ++ [t], by simp, ho, hbefore, ?_⟩
    exact openDelimiters?_concat_eq_some_iff.2 ⟨[], hinside, pass_plain hkind⟩

/-- The delimiters that are open are those whose insides are balanced up to the end of the
    tokens. -/
theorem openDelimiters?_eq_cons_iff : openDelimiters? ts = some (o :: os) ↔
    ∃ before inside, ts = before ++ o :: inside ∧ (∃ bracket : Bracket, o.kind = bracket.opener) ∧
      openDelimiters? before = some os ∧ openDelimiters? inside = some [] := by
  constructor
  · exact exists_inside_of_openDelimiters?
  · rintro ⟨before, inside, rfl, ⟨bracket, ho⟩, hbefore, hinside⟩
    rw [List.append_cons]
    exact openDelimiters?_append (openDelimiters?_enter hbefore ho) hinside

end Tokens

/-! ### The Stack of the Reader -/

/-- The tokens that opened the delimiters that are open, innermost first. -/
def Reader.opened (r : Reader) : List Token := r.frames.map Frame.opener

/-- The tokens that opened the delimiters that are open, innermost first. -/
def Builder.opened (b : Builder) : List Token := b.frames.map Frame.opener

/-- An open delimiter without the chains around it. -/
def Frame.mark (f : Frame) : Bracket × Token := (f.bracket, f.opener)

/-- The open delimiters without the chains around them. -/
def Reader.marks (r : Reader) : List (Bracket × Token) := r.frames.map Frame.mark

/-- The open delimiters are those that the tokens leave open. -/
structure Tracks (marks : List (Bracket × Token)) (ts : List Token) : Prop where
  /-- They are the same tokens. -/
  opened : openDelimiters? ts = some (marks.map Prod.snd)
  /-- Each is of the kind that the reader takes it for. -/
  kinds : ∀ m ∈ marks, m.2.kind = m.1.opener
  /-- There are not too many of them. -/
  depth : marks.length ≤ maxDepth
  /-- No literal has been read. -/
  literals : ∀ t ∈ ts, t.kind ≠ .string

namespace Tracks

variable {marks : List (Bracket × Token)} {ts us : List Token} {t o : Token} {bracket : Bracket}

theorem concat {marks' : List (Bracket × Token)} (h : Tracks marks ts)
    (hpass : passDelimiter (marks.map Prod.snd) t = some (marks'.map Prod.snd))
    (hkinds : ∀ m ∈ marks', m.2.kind = m.1.opener) (hdepth : marks'.length ≤ maxDepth)
    (ht : t.kind ≠ .string) : Tracks marks' (ts ++ [t]) where
  opened := openDelimiters?_concat_eq_some_iff.2 ⟨_, h.opened, hpass⟩
  kinds := hkinds
  depth := hdepth
  literals := List.forall_mem_append.2 ⟨h.literals, List.forall_mem_singleton.2 ht⟩

theorem plain {kind : Token.Kind} (h : Tracks marks ts) (ht : t.kind = kind)
    (hkind : IsPlain kind ∧ kind ≠ .string) : Tracks marks (ts ++ [t]) := by
  subst ht
  exact h.concat (pass_plain hkind.1) h.kinds h.depth hkind.2

theorem enter (h : Tracks marks ts) (ht : t.kind = bracket.opener)
    (hdepth : marks.length < maxDepth) : Tracks ((bracket, t) :: marks) (ts ++ [t]) := by
  apply h.concat (pass_opener ht)
  · exact List.forall_mem_cons.2 ⟨ht, h.kinds⟩
  · exact hdepth
  · rw [ht]
    cases bracket <;> simp [Bracket.opener]

theorem leave (h : Tracks ((bracket, o) :: marks) ts) (ht : t.kind = bracket.closer) :
    Tracks marks (ts ++ [t]) := by
  obtain ⟨ho, hkinds⟩ := List.forall_mem_cons.1 h.kinds
  apply h.concat (pass_closer ht ho) hkinds
  · exact Nat.le_of_succ_le h.depth
  · rw [ht]
    cases bracket <;> simp [Bracket.closer]

end Tracks

namespace Reader

variable {r r' : Reader} {t : Token} {ts us : List Token}

theorem opened_eq (r : Reader) : r.opened = r.marks.map Prod.snd := by
  unfold opened marks
  rw [List.map_map]
  rfl

theorem marks_eq {frames : List Frame} (h : r.frames = frames) :
    r.marks = frames.map Frame.mark := by
  rw [marks, h]

theorem stored_opened (cells : Cells) : (r.stored cells).opened = r.opened := by
  unfold opened Builder.opened
  rw [frames_stored, List.map_map]
  rfl

@[simp] theorem ended_marks (nodes : List Node) (count : Nat) :
    (r.ended nodes count).marks = r.marks := by
  unfold ended marks
  cases r.frames <;> rfl

theorem marks_of_endStatement {line : Nat} (h : r.endStatement line = .ok r') :
    r'.marks = r.marks := by
  obtain ⟨nodes, -, rfl⟩ := endStatement_eq_ok_iff.1 h
  exact ended_marks nodes r.count

theorem closeBlock_marks (frame : Frame) (frames : List Frame) (line : Nat) :
    (r.closeBlock frame frames line).marks = frames.map Frame.mark := by
  unfold closeBlock
  dsimp only
  split <;> rfl

/-- A token that makes an item alone is no delimiter and no literal. -/
theorem isPlain_of_itemOfKind {kind : Token.Kind} {item : Origin → Item}
    (h : itemOfKind kind = some item) : IsPlain kind ∧ kind ≠ .string := by
  cases kind <;> first | decide | simp [itemOfKind] at h

/-- What one token does to the open delimiters when nothing is pending. -/
theorem Step.tracks (hstep : r.Step t r') (h : Tracks r.marks ts) :
    Tracks r'.marks (ts ++ [t]) := by
  cases hstep with
  | word hitem hequals => exact h.plain rfl (isPlain_of_itemOfKind hitem)
  | equals hkind | structWord hkind => exact h.plain hkind (by decide)
  | enter bracket hkind hdepth => exact h.enter hkind (by simpa [marks] using hdepth)
  | @leave bracket opener outer body nodes frames hframes hbracket hkind hchain hnodes =>
    have hcloser : t.kind = bracket.closer := by
      rw [hkind]
      cases bracket with
      | brace => contradiction
      | paren | square => rfl
    rw [marks_eq hframes] at h
    exact h.leave hcloser
  | semicolon hterminator hkind =>
    rw [ended_marks]
    exact h.plain hkind (by decide)
  | @closeBlock opener outer body frames hframes hkind hbody hchain =>
    rw [marks_eq hframes] at h
    rw [closeBlock_marks]
    exact h.leave hkind
  | endOfInput hkind hframes =>
    rw [marks_eq hframes] at h
    exact h.plain hkind (by decide)

/-- What is pending opens and closes nothing. -/
theorem tracks_read (h : Tracks r.marks ts) (hread : r.read t = .ok r') :
    Tracks r'.marks (ts ++ [t]) := by
  unfold read at hread
  split at hread
  · exact (readToken_eq_ok_iff.1 hread).tracks h
  · split at hread
    · next hname =>
      cases hread
      exact h.plain hname (by decide)
    · simp at hread
  · split at hread
    · next htouch =>
      cases hread
      exact h.plain htouch.1 (by decide)
    · exact Step.tracks (r := r.push _) (readToken_eq_ok_iff.1 hread) h
  · split at hread
    · next hsemicolon =>
      rw [marks_of_endStatement hread]
      exact h.plain hsemicolon (by decide)
    · obtain ⟨u, hu, hread⟩ := bind_eq_ok.1 hread
      rw [← marks_of_endStatement hu] at h
      exact (readToken_eq_ok_iff.1 hread).tracks h

theorem tracks_readAll (h : Tracks r.marks ts) (hread : r.readAll us = (r', none)) :
    Tracks r'.marks (ts ++ us) := by
  induction us generalizing r ts with
  | nil =>
    cases hread
    rwa [List.append_nil]
  | cons u us ih =>
    obtain ⟨v, hv, hread⟩ := readAll_cons_eq_none.1 hread
    have hall := ih (tracks_read h hv) hread
    rwa [List.append_assoc, List.singleton_append] at hall

theorem tracks_start : Tracks (start 0).marks [] where
  opened := rfl
  kinds := by simp [start, marks]
  depth := by simp [start, marks]
  literals := by simp

/-- **Invariant.** Whatever tokens have been read, the stack holds the delimiters that they
    leave open. -/
theorem tracks_of_readAll (h : (start 0).readAll ts = (r, none)) : Tracks r.marks ts :=
  tracks_readAll tracks_start h

end Reader

/-! ### Errors about Delimiters -/

/-- Whether the fault is that a source ends inside a delimiter. -/
def Fault.isUnclosed : Fault → Bool
  | unterminatedBlock _ | unclosed _ _ => true
  | _ => false

/-- The line of the delimiter that the fault names. -/
def Fault.openedLine? : Fault → Option Nat
  | unterminatedBlock line | unclosed _ line => some line
  | _ => none

/-- Whether the fault is about the delimiters that are open. -/
def Fault.isNesting (fault : Fault) : Bool := fault = nestingTooDeep || fault.isUnclosed

/-- The fault of an input that ends inside the delimiter. -/
def Bracket.leftOpen (bracket : Bracket) (opener : Token) : Fault :=
  if bracket = .brace then .unterminatedBlock opener.line
  else .unclosed opener.kind opener.line

/-- An error about the delimiters that are open at a token. -/
inductive Blocked (marks : List (Bracket × Token)) (t : Token) : Error → Prop
  /-- One more is opened than may be open. -/
  | tooDeep {bracket : Bracket} : t.kind = bracket.opener → maxDepth ≤ marks.length →
      Blocked marks t ⟨t.line, .nestingTooDeep⟩
  /-- The input ends inside the innermost one. -/
  | leftOpen {bracket : Bracket} {opener : Token} {outer : List (Bracket × Token)} :
      t.kind = .endOfInput → marks = (bracket, opener) :: outer →
      Blocked marks t ⟨t.line, bracket.leftOpen opener⟩

namespace Reader

variable {r r' : Reader} {t : Token} {ts us : List Token} {e : Error}

/-- No error about the operands of a chain is about delimiters. -/
theorem resolveChain_isNesting {line : Nat} (h : r.resolveChain line = .error e) :
    e.fault.isNesting = false := by
  unfold resolveChain at h
  split at h <;> cases h
  rfl

theorem bind_eq_error {α β : Type} {x : Except Error α} {f : α → Except Error β} :
    (x >>= f) = .error e ↔ x = .error e ∨ ∃ a, x = .ok a ∧ f a = .error e := by
  cases x <;> simp [bind, Except.bind]

theorem endStatement_isNesting {line : Nat} (h : r.endStatement line = .error e) :
    e.fault.isNesting = false := by
  unfold endStatement at h
  rcases bind_eq_error.1 h with h | ⟨nodes, -, h⟩
  · exact resolveChain_isNesting h
  · split at h <;> cases h

theorem endChain_isNesting (h : r.endChain t = .error e) : e.fault.isNesting = false := by
  unfold endChain at h
  by_cases hempty : r.chain.isEmpty = true
  · rw [if_pos hempty] at h
    cases h
    rfl
  · rw [if_neg hempty] at h
    dsimp only at h
    split at h
    · rcases bind_eq_error.1 h with h | ⟨nodes, -, h⟩
      · exact resolveChain_isNesting h
      · cases h
    · rcases bind_eq_error.1 h with h | ⟨nodes, -, h⟩
      · exact resolveChain_isNesting h
      · cases h
    · exact endStatement_isNesting h

theorem enter_eq_error (bracket : Bracket) (hkind : t.kind = bracket.opener)
    (h : r.enter bracket t = .error e) : Blocked r.marks t e := by
  unfold enter at h
  split at h
  · next hdepth =>
    cases h
    exact .tooDeep hkind (by simpa [marks] using hdepth)
  · cases h

theorem endScript_eq_error (hkind : t.kind = .endOfInput) (h : r.endScript t = .error e)
    (he : e.fault.isNesting = true) : Blocked r.marks t e := by
  unfold endScript at h
  split at h
  · simp [endStatement_isNesting h] at he
  · next frame frames hframes =>
    have heq : e = ⟨t.line, frame.bracket.leftOpen frame.opener⟩ := by
      unfold Bracket.leftOpen
      split at h
      · next hbrace =>
        cases h
        rw [if_pos hbrace]
      · next hother =>
        cases h
        rw [if_neg hother]
    rw [heq]
    exact .leftOpen hkind (marks_eq hframes)

theorem readItem_eq_error (h : r.readItem t = .error e) (he : e.fault.isNesting = true) :
    Blocked r.marks t e := by
  unfold readItem at h
  split at h
  case h_13 hkind => exact enter_eq_error .paren hkind h
  case h_14 hkind => exact enter_eq_error .square hkind h
  case h_15 hkind => exact enter_eq_error .brace hkind h
  case h_16 hkind => exact endScript_eq_error hkind h he
  all_goals
    cases h
    try cases he

theorem readToken_eq_error (h : r.readToken t = .error e) (he : e.fault.isNesting = true) :
    Blocked r.marks t e := by
  unfold readToken at h
  split at h
  · simp [endChain_isNesting h] at he
  split at h
  · split at h <;> cases h
    cases he
  · exact readItem_eq_error h he

/-- Reading a token fails for its delimiters only if it opens one too many, or is the end of
    the input inside of one. -/
theorem read_eq_error (h : r.read t = .error e) (he : e.fault.isNesting = true) :
    Blocked r.marks t e := by
  unfold read at h
  split at h
  · exact readToken_eq_error h he
  · split at h <;> cases h
    cases he
  · split at h
    · cases h
    · exact readToken_eq_error (r := r.push _) h he
  · split at h
    · simp [endStatement_isNesting h] at he
    · rcases bind_eq_error.1 h with h | ⟨u, hu, h⟩
      · simp [endStatement_isNesting h] at he
      · rw [← marks_of_endStatement hu]
        exact readToken_eq_error h he

/-- The tokens `ts` are read, and the one behind them cannot be. -/
def StopsAt (tokens ts : List Token) (t : Token) (e : Error) : Prop :=
  ∃ us r, tokens = ts ++ t :: us ∧ (start 0).readAll ts = (r, none) ∧ r.read t = .error e

theorem readAll_eq_error (h : r.readAll us = (r', some e)) :
    ∃ ts t vs v, us = ts ++ t :: vs ∧ r.readAll ts = (v, none) ∧ v.read t = .error e := by
  induction us generalizing r with
  | nil => cases h
  | cons u us ih =>
    rw [readAll] at h
    cases hu : r.read u with
    | error e' =>
      rw [hu] at h
      cases h
      exact ⟨[], u, us, r', rfl, rfl, hu⟩
    | ok w =>
      rw [hu] at h
      obtain ⟨ts, t, vs, v, rfl, hts, ht⟩ := ih h
      exact ⟨u :: ts, t, vs, v, rfl, readAll_cons_eq_none.2 ⟨w, hu, hts⟩, ht⟩

end Reader

/-- A source fails for its grammar if one of its tokens cannot be read. -/
theorem Script.ofSource_eq_grammar_iff {source : String} {e : Error} :
    Script.ofSource source = .error (.grammar e) ↔
      ((Reader.start 0).readAll (Token.scan source).tokens).2 = some e := by
  unfold ofSource readFrom
  rcases (Reader.start 0).readAll (Token.scan source).tokens with ⟨r, _ | e'⟩
  · cases (Token.scan source).failure <;> simp
  · simp

theorem Script.stopsAt_of_ofSource {source : String} {e : Error}
    (h : Script.ofSource source = .error (.grammar e)) :
    ∃ ts t, Reader.StopsAt (Token.scan source).tokens ts t e := by
  have hstopped := ofSource_eq_grammar_iff.1 h
  rcases hread : (Reader.start 0).readAll (Token.scan source).tokens with ⟨r, stopped⟩
  rw [hread] at hstopped
  cases hstopped
  obtain ⟨ts, t, us, v, htokens, hts, ht⟩ := Reader.readAll_eq_error hread
  exact ⟨ts, t, us, v, htokens, hts, ht⟩

/-! ### Sources -/

/-- The fault of a source that ends while the token is the innermost open delimiter. -/
def neverClosed (source : String) (opener : Token) : Fault :=
  if opener.kind = .openBrace then .unterminatedBlock (lineAt source opener.start)
  else .unclosed opener.kind (lineAt source opener.start)

section Source

variable {source : String} {r : Reader} {ts us : List Token} {t : Token} {e : Error}

/-- All tokens that can be read, and the next one, are on the lines that they are counted on. -/
theorem line_of_readAll (htokens : (Token.scan source).tokens = ts ++ t :: us)
    (hread : (Reader.start 0).readAll ts = (r, none)) :
    t.line = lineAt source t.start ∧ ∀ u ∈ ts, u.line = lineAt source u.start := by
  have hliterals := (Reader.tracks_of_readAll hread).literals
  have hfeeds {vs : List Token} (hvs : ∀ v ∈ vs, v ∈ ts) : quotedFeeds vs = 0 :=
    Token.quotedFeeds_eq_zero_iff.2 fun v hv hkind => absurd hkind (hliterals v (hvs v hv))
  constructor
  · have hline := Token.line_of_scan htokens
    rwa [hfeeds fun v hv => hv, Nat.add_zero] at hline
  · intro u hu
    obtain ⟨front, back, rfl⟩ := List.append_of_mem hu
    rw [List.append_assoc, List.cons_append] at htokens
    have hline := Token.line_of_scan htokens
    rwa [hfeeds fun v hv => List.mem_append_left _ hv, Nat.add_zero] at hline

/-- What the reader says of a delimiter that is left open is true of the source. -/
theorem leftOpen_eq {bracket : Bracket} {opener : Token} (hkind : opener.kind = bracket.opener)
    (hline : opener.line = lineAt source opener.start) :
    bracket.leftOpen opener = neverClosed source opener := by
  unfold Bracket.leftOpen neverClosed
  rw [hkind, hline]
  cases bracket <;> rfl

theorem mem_of_opened {o : Token} {os : List Token} (h : openDelimiters? ts = some (o :: os)) :
    o ∈ ts := by
  obtain ⟨before, inside, rfl, -⟩ := openDelimiters?_eq_cons_iff.1 h
  exact List.mem_append_right _ List.mem_cons_self

/-- The nesting is too deep at one more delimiter than may be open at once. -/
theorem tooDeep_of_stopsAt (h : Reader.StopsAt (Token.scan source).tokens ts t e)
    (he : e.fault = .nestingTooDeep) :
    ∃ opened, openDelimiters? ts = some opened ∧ opened.length = maxDepth ∧
      openDelimiters? (ts ++ [t]) = some (t :: opened) ∧ e.line = lineAt source t.start := by
  obtain ⟨us, r, htokens, hread, hstop⟩ := h
  have htracks := Reader.tracks_of_readAll hread
  cases Reader.read_eq_error hstop (by rw [he]; rfl) with
  | tooDeep hkind hdepth =>
    have hlength : (r.marks.map Prod.snd).length = maxDepth := by
      rw [List.length_map]
      exact Nat.le_antisymm htracks.depth hdepth
    exact ⟨_, htracks.opened, hlength, openDelimiters?_enter htracks.opened hkind,
      (line_of_readAll htokens hread).1⟩
  | @leftOpen bracket =>
    dsimp only [Bracket.leftOpen] at he
    split at he <;> cases he

/-- A source that ends too early is reported with the innermost delimiter that it leaves
    open. -/
theorem neverClosed_of_stopsAt (h : Reader.StopsAt (Token.scan source).tokens ts t e)
    (he : e.fault.isUnclosed = true) :
    ∃ o os, (Token.scan source).tokens = ts ++ [t] ∧ t.kind = .endOfInput ∧
      openDelimiters? ts = some (o :: os) ∧
      e = ⟨lineBehind source.toList, neverClosed source o⟩ := by
  obtain ⟨us, r, htokens, hread, hstop⟩ := h
  have htracks := Reader.tracks_of_readAll hread
  obtain ⟨hlast, hlines⟩ := line_of_readAll htokens hread
  cases Reader.read_eq_error hstop (by rw [Fault.isNesting, he, Bool.or_true]) with
  | tooDeep => cases he
  | @leftOpen bracket opener outer hkind hmarks =>
    obtain ⟨rfl, hstart⟩ := Token.scanFrom_endOfInput source.toList 0 1 _ _ _ htokens hkind
    have hopened := htracks.opened
    rw [hmarks, List.map_cons] at hopened
    have hopener : opener.kind = bracket.opener :=
      htracks.kinds (bracket, opener) (by rw [hmarks]; exact List.mem_cons_self)
    have hline : t.line = lineBehind source.toList := by
      rw [hlast, hstart, Nat.zero_add]
      exact Token.lineAt_of_append (List.append_nil _).symm rfl
    refine ⟨opener, outer.map Prod.snd, htokens, hkind, hopened, ?_⟩
    rw [hline, leftOpen_eq hopener (hlines opener (mem_of_opened hopened))]

/-- The lines of these errors are lines of the source. -/
theorem lines_of_stopsAt (h : Reader.StopsAt (Token.scan source).tokens ts t e)
    (he : e.fault.isNesting = true) :
    e.line ≤ lineBehind source.toList ∧
      ∀ line ∈ e.fault.openedLine?, line ≤ lineBehind source.toList := by
  rcases Bool.or_eq_true_iff.1 he with hdeep | hunclosed
  · have hdeep : e.fault = .nestingTooDeep := of_decide_eq_true hdeep
    obtain ⟨-, -, -, -, hline⟩ := tooDeep_of_stopsAt h hdeep
    refine ⟨hline ▸ lineAt_le source t.start, fun line hopened => ?_⟩
    rw [hdeep] at hopened
    cases hopened
  · obtain ⟨o, os, -, -, -, rfl⟩ := neverClosed_of_stopsAt h hunclosed
    refine ⟨Nat.le_refl _, fun line hopened => ?_⟩
    have hline : line = lineAt source o.start := by
      dsimp only at hopened
      unfold neverClosed at hopened
      split at hopened <;> exact (Option.mem_some.1 hopened).symm
    exact hline ▸ lineAt_le source o.start

/-- The builder has the same delimiters open as the reader. -/
theorem opened_of_builder {b : Builder} (h : (Builder.start .empty).readAll ts = .ok b) :
    openDelimiters? ts = some b.opened := by
  have hmirrored := Reader.stored_start.readAll ts
  have hstart : (Reader.start 0).stored .empty = Builder.start .empty := rfl
  rw [hstart, h] at hmirrored
  rcases hread : (Reader.start 0).readAll ts with ⟨r, _ | e⟩
  · rw [hread] at hmirrored
    cases hmirrored with
    | ok hstored =>
      rw [Reader.stored_opened, Reader.opened_eq]
      exact (Reader.tracks_of_readAll hread).opened
  · rw [hread] at hmirrored
    cases hmirrored

/-- **Main theorem.** Behind all tokens that can be read, the open delimiters are those that
    the tokens leave open, both of the reader and of the builder. A source fails for its nesting
    only at a token that opens the 129th delimiter, on the line of that token. It fails for a
    delimiter that is never closed only at its end, on its last line, for the innermost
    delimiter that is open there, with the line of that delimiter. None of these lines is too
    large for 32 bits unless the source has so many. -/
theorem delimiters_named (source : String) :
    (∀ ts, (∀ r, (Reader.start 0).readAll ts = (r, none) → openDelimiters? ts = some r.opened) ∧
      (∀ b, (Builder.start .empty).readAll ts = .ok b → openDelimiters? ts = some b.opened)) ∧
    ∀ e, Script.ofSource source = .error (.grammar e) →
      ∃ ts t, Reader.StopsAt (Token.scan source).tokens ts t e ∧
        (e.fault = .nestingTooDeep → ∃ opened, openDelimiters? ts = some opened ∧
          opened.length = 128 ∧ openDelimiters? (ts ++ [t]) = some (t :: opened) ∧
          e.line = lineAt source t.start) ∧
        (e.fault.isUnclosed = true → ∃ o os, (Token.scan source).tokens = ts ++ [t] ∧
          t.kind = .endOfInput ∧ openDelimiters? ts = some (o :: os) ∧
          e = ⟨lineBehind source.toList, neverClosed source o⟩) ∧
        (source.toList.count '\n' < maxLine → e.fault.isNesting = true →
          e.line ≤ maxLine ∧ ∀ line ∈ e.fault.openedLine?, line ≤ maxLine) := by
  constructor
  · intro ts
    constructor
    · intro r hread
      rw [Reader.opened_eq]
      exact (Reader.tracks_of_readAll hread).opened
    · intro b hread
      exact opened_of_builder hread
  · intro e he
    obtain ⟨ts, t, hstop⟩ := Script.stopsAt_of_ofSource he
    refine ⟨ts, t, hstop, tooDeep_of_stopsAt hstop, neverClosed_of_stopsAt hstop, ?_⟩
    intro hfeeds hnesting
    obtain ⟨hline, hopened⟩ := lines_of_stopsAt hstop hnesting
    exact ⟨hline.trans hfeeds, fun line hmem => (hopened line hmem).trans hfeeds⟩

end Source

/-- A bracket that is never closed, inside of a block and behind parentheses. -/
def unclosedIndex : String := "\x7b (a) b[(c)\n + d"

theorem unclosedIndex_named :
    Script.ofSource unclosedIndex = .error (.grammar ⟨2, .unclosed .openBracket 1⟩) ∧
      ∃ ts t o os, (Token.scan unclosedIndex).tokens = ts ++ [t] ∧ t.kind = .endOfInput ∧
        openDelimiters? ts = some (o :: os) ∧ o.kind = .openBracket := by
  have hfails : Script.ofSource unclosedIndex = .error (.grammar ⟨2, .unclosed .openBracket 1⟩) :=
    Script.ofSource_eq_grammar_iff.2 (by decide +kernel)
  obtain ⟨ts, t, -, -, hunclosed, -⟩ := (delimiters_named unclosedIndex).2 _ hfails
  obtain ⟨o, os, htokens, hlast, hopened, he⟩ := hunclosed rfl
  refine ⟨hfails, ts, t, o, os, htokens, hlast, hopened, ?_⟩
  have hfault : .unclosed .openBracket 1 = neverClosed unclosedIndex o := congrArg Error.fault he
  unfold neverClosed at hfault
  split at hfault
  · cases hfault
  · exact (Fault.unclosed.inj hfault).1.symm

end ByteBricks.Syntax
