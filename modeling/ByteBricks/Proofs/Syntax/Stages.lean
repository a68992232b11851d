import ByteBricks.Syntax.Builder

/-! # The Stages of Building

  From one token to the next the builder changes its store several times. It stores a cell, gives
  it its parts and links it to a chain; it folds the operators of a chain one after the other and
  links what is left of the chain to another one. The stages are the builders between these
  changes. While an operator is folded it refers to its operands and they still refer to it, but
  no chain is walked along then, so this counts as one change. Main statement: the stages leave no
  change out, from the store that the builder begins with to the one that is left in the end, also
  when the builder stops. -/

namespace ByteBricks.Syntax

/-! ### Changes -/

/-- A store is changed in at most one of the ways in which the builder changes it. -/
inductive Cells.Change : Cells → Cells → Prop
  /-- It stays as it is. -/
  | none (s : Cells) : Change s s
  /-- A cell is stored that refers to no other. -/
  | store (s : Cells) (t : Token) (kind : Cell.Kind) : Change s (s.push (.plain t kind)).2
  /-- The cell that was stored last gets its parts. -/
  | complete (s : Cells) {cell : Cell} : cell.next = Option.none →
    Change (s.push (.plain cell.token cell.kind)).2 (s.push cell).2
  /-- The last cell of a chain, if there is one, gets a cell behind it. -/
  | link (s : Cells) (front : Option Strand) (head : Handle) : Change s (s.link front head).1
  /-- The next operator of a chain is folded. -/
  | fold {s s' : Cells} {head : Handle} {c : Candidate} :
    s.candidate? head = some c → s.foldAt? c = some s' → Change s s'

/-- The stages lead from one store to another, with one change at most up to each of them. -/
inductive Cells.Course : Cells → List Builder → Cells → Prop
  /-- There is no stage. -/
  | done (s : Cells) : Course s [] s
  /-- One stage and those behind it. -/
  | step {s s' : Cells} {b : Builder} {stages : List Builder} :
    Change s b.cells → Course b.cells stages s' → Course s (b :: stages) s'

/-! ### Stages -/

namespace Builder

/-- The stages that follow, unless the builder has stopped. -/
def following {α : Type} (x : Except Stop α) (stages : α → List Builder) : List Builder :=
  match x with
  | .ok a => stages a
  | .error _ => []

/-- A cell is stored without its parts, then has them, then is linked to the chain. -/
def pushStages (b : Builder) (cell : Cell) : List Builder :=
  [{ b with cells := (b.cells.push (.plain cell.token cell.kind)).2 },
    { b with cells := (b.cells.push cell).2 }, b.push cell]

/-- The builder when no more than `limit` operators of its chain have been folded. It has given
    the chain up. -/
def folding (b : Builder) (strand : Strand) (limit : Nat) : Builder :=
  { b with cells := (Cells.foldFrom limit b.cells strand.head).1, chain := none }

/-- The operators of the chain are folded one after the other. -/
def foldStages (b : Builder) (strand : Strand) : List Builder :=
  (List.range (b.cells.size + 1)).map (b.folding strand)

/-- A statement is ended. -/
def endStatementStages (b : Builder) (line : Nat) : List Builder :=
  match b.chain with
  | none => []
  | some strand => b.foldStages strand ++ following (b.endStatement line) ([·])

/-- A delimiter is closed behind a chain, which a new cell of the chain outside refers to. -/
def closeStages (b : Builder) (line : Nat) (strand : Strand) (outer : Option Strand)
    (frames : List Frame) (cell : Handle → Cell) : List Builder :=
  b.foldStages strand ++ following (b.foldChain line strand) fun folded =>
    { b with cells := folded.1, frames := frames, chain := outer }.pushStages (cell folded.2)

/-- The token that ends the chain is read. -/
def endChainStages (b : Builder) (t : Token) : List Builder :=
  match b.chain with
  | none => []
  | some strand =>
    match b.frames with
    | ⟨.paren, opener, outer, _⟩ :: frames =>
      b.closeStages t.line strand outer frames fun head => ⟨opener, .paren, none, head, none⟩
    | ⟨.square, opener, outer, _⟩ :: frames =>
      b.closeStages t.line strand outer frames fun head => ⟨opener, .element, none, none, head⟩
    | _ => b.endStatementStages t.line

/-- The end of the source is read. -/
def endScriptStages (b : Builder) (t : Token) : List Builder :=
  match b.frames with
  | [] => b.pushStages (.plain t .scriptEnd) ++
      (b.push (.plain t .scriptEnd)).endStatementStages t.line
  | _ :: _ => []

/-- The cell that a token makes alone. -/
def kindOf? : Token.Kind → Option Cell.Kind
  | .name => some .name
  | .integer => some .integer
  | .ifWord => some (.control .ifWord)
  | .elseWord => some (.control .elseWord)
  | .whileWord => some (.control .whileWord)
  | .dot => some (.operator .member)
  | .plus => some (.operator .plus)
  | .minus => some (.operator .minus)
  | .star => some (.operator .times)
  | .slash => some (.operator .divide)
  | _ => none

/-- A token is read that neither ends the chain nor closes a block. -/
def readItemStages (b : Builder) (t : Token) : List Builder :=
  match kindOf? t.kind with
  | some kind => b.pushStages (.plain t kind)
  | none => if t.kind = .endOfInput then b.endScriptStages t else []

/-- A block is closed. -/
def closeBlockStages (b : Builder) (frame : Frame) (frames : List Frame) : List Builder :=
  { b with frames := frames, chain := frame.outer }.pushStages
    ⟨frame.opener, .block, none, frame.body.map Strand.head, none⟩

/-- A token is read when nothing is pending. -/
def readTokenStages (b : Builder) (t : Token) : List Builder :=
  if t.kind = b.terminator then b.endChainStages t
  else if t.kind = .closeBrace then
    match b.closable? with
    | some (frame, frames) => b.closeBlockStages frame frames
    | none => []
  else b.readItemStages t

/-- The builder that has stored the name of a struct declaration. -/
def named (b : Builder) (name : Token) : Builder :=
  { b with cells := (b.cells.push (.plain name .name)).2 }

/-- The head of a struct declaration is appended. -/
def structHeadStages (b : Builder) (word name : Token) : List Builder :=
  b.named name :: (b.named name).pushStages ((Cell.plain word .structHead).withFirst ⟨b.cells.size⟩)

/-- The next token is read. -/
def readStages (b : Builder) (t : Token) : List Builder :=
  match b.pending with
  | .nothing => b.readTokenStages t
  | .structName word => if t.kind = .name then b.structHeadStages word t else []
  | .equals sign =>
    if t.kind = .equals ∧ t.start = sign.stop then
      b.pushStages (.plain (Reader.comparisonToken sign t) (.operator .compare))
    else
      b.pushStages (.plain sign (.operator .assign)) ++
        (b.push (.plain sign (.operator .assign))).readTokenStages t
  | .blockEnd line =>
    if t.kind = .semicolon then b.endStatementStages t.line
    else
      b.endStatementStages line ++ following (b.endStatement line) (·.readTokenStages t)

/-- All stages of reading tokens one after the other, the builders between the tokens too. -/
def stages (b : Builder) : List Token → List Builder
  | [] => [b]
  | t :: ts => b :: (b.readStages t ++ following (b.read t) (·.stages ts))

end Builder

/-! ### Courses -/

/-- The store that is left, also when the builder has stopped. -/
def Stop.left {α : Type} (cells : α → Cells) : Except Stop α → Cells
  | .ok a => cells a
  | .error stop => stop.cells

namespace Cells

open Builder (following)
open Stop (left)

variable {s s' u : Cells} {stages stages' : List Builder} {α β : Type} {x : Except Stop α}
  {cells : α → Cells} {cells' : β → Cells}

theorem Course.append (h : Course s stages u) (h' : Course u stages' s') :
    Course s (stages ++ stages') s' := by
  induction h with
  | done s => exact h'
  | step hchange _ ih => exact .step hchange (ih h')

/-- The store that is left is that of a stage, if there is one. -/
theorem Course.exists_stage (h : Course s stages s') : s' = s ∨ ∃ b ∈ stages, b.cells = s' := by
  induction h with
  | done s => exact .inl rfl
  | @step s s' b stages _ _ ih =>
    rcases ih with rfl | ⟨c, hc, rfl⟩
    · exact .inr ⟨b, List.mem_cons_self, rfl⟩
    · exact .inr ⟨c, List.mem_cons_of_mem b hc, rfl⟩

/-- What is done next has its own course, unless the builder stops before. -/
theorem Course.bind {f : α → Except Stop β} {next : α → List Builder}
    (h : Course s stages (left cells x))
    (hnext : ∀ a, x = .ok a → Course (cells a) (next a) (left cells' (f a))) :
    Course s (stages ++ following x next) (left cells' (x >>= f)) := by
  cases x with
  | ok a => exact h.append (hnext a rfl)
  | error stop => exact h.append (.done _)

/-- One more step of folding is one change at most. -/
theorem change_foldFrom (limit : Nat) (s : Cells) (head : Handle) :
    Change (foldFrom limit s head).1 (foldFrom (limit + 1) s head).1 := by
  induction limit generalizing s head with
  | zero =>
    rw [foldFrom, foldFrom]
    cases hcandidate : s.candidate? head with
    | none => exact .none s
    | some c =>
      dsimp only
      cases hfold : s.foldAt? c with
      | none => exact .none s
      | some s' => exact .fold hcandidate hfold
  | succ limit ih =>
    rw [foldFrom, foldFrom]
    cases s.candidate? head with
    | none => exact .none s
    | some c =>
      -- Both begin with the same step.
      dsimp only
      cases s.foldAt? c with
      | none => exact .none s
      | some s' => exact ih s' (c.newHead head)

end Cells

namespace Builder

open Cells (Course)
open Stop (left)

variable {b : Builder} {t : Token}

/-! ### Chains -/

theorem course_pushStages {cell : Cell} (hnext : cell.next = none) :
    Course b.cells (b.pushStages cell) (b.push cell).cells :=
  .step (.store ..) (.step (.complete _ hnext) (.step (.link ..) (.done _)))

theorem course_foldStages (strand : Strand) :
    Course b.cells (b.foldStages strand) (b.cells.fold strand.head).1 := by
  have hrange (n : Nat) : Course b.cells ((List.range (n + 1)).map (b.folding strand))
      (Cells.foldFrom n b.cells strand.head).1 := by
    induction n with
    | zero => exact .step (.none _) (.done _)
    | succ n ih =>
      rw [List.range_succ, List.map_append]
      exact ih.append (.step (Cells.change_foldFrom n _ _) (.done _))
  exact hrange b.cells.size

theorem left_foldChain (b : Builder) (line : Nat) (strand : Strand) :
    left Prod.fst (b.foldChain line strand) = (b.cells.fold strand.head).1 := by
  unfold foldChain
  rcases b.cells.fold strand.head with ⟨s, _ | _⟩ <;> rfl

/-- A chain is folded, and then something else is done. -/
theorem bind_foldChain {line : Nat} {strand : Strand} {f : Cells × Handle → Except Stop Builder}
    {next : Cells × Handle → List Builder}
    (hnext : ∀ s head, Course s (next (s, head)) (left Builder.cells (f (s, head)))) :
    Course b.cells (b.foldStages strand ++ following (b.foldChain line strand) next)
      (left Builder.cells (b.foldChain line strand >>= f)) := by
  have hfold : Course b.cells (b.foldStages strand)
      (left Prod.fst (b.foldChain line strand)) := by
    rw [left_foldChain]
    exact course_foldStages strand
  exact hfold.bind fun folded _ => hnext folded.1 folded.2

theorem following_bind {α β : Type} {x : Except Stop α} {f : α → Except Stop β}
    {next : β → List Builder} :
    following (x >>= f) next = following x fun a => following (f a) next := by
  cases x <;> rfl

theorem course_endStatementStages (b : Builder) (line : Nat) :
    Course b.cells (b.endStatementStages line) (left Builder.cells (b.endStatement line)) := by
  unfold endStatementStages endStatement
  cases b.chain with
  | none => exact .done _
  | some strand =>
    dsimp only
    rw [following_bind]
    refine bind_foldChain fun s head => ?_
    dsimp only
    cases b.frames with
    | nil => exact .step (.none _) (.done _)
    | cons frame frames => exact .step (.link ..) (.done _)

/-! ### Tokens -/

theorem course_closeStages (b : Builder) (line : Nat) (strand : Strand) (outer : Option Strand)
    (frames : List Frame) {cell : Handle → Cell} (hnext : ∀ head, (cell head).next = none) :
    Course b.cells (b.closeStages line strand outer frames cell)
      (left Builder.cells (do
        let (cells, head) ← b.foldChain line strand
        pure ({ b with cells := cells }.leave outer frames (cell head)))) := by
  unfold closeStages
  refine bind_foldChain fun s head => ?_
  let inner : Builder := { b with cells := s, frames := frames, chain := outer }
  exact course_pushStages (b := inner) (hnext head)

theorem course_endChainStages (b : Builder) (t : Token) :
    Course b.cells (b.endChainStages t) (left Builder.cells (b.endChain t)) := by
  unfold endChainStages endChain
  cases b.chain with
  | none => exact .done _
  | some strand =>
    rcases b.frames with _ | ⟨⟨_ | _ | _, opener, outer, body⟩, frames⟩
    · exact course_endStatementStages b t.line
    · exact course_closeStages b t.line strand outer frames fun _ => rfl
    · exact course_closeStages b t.line strand outer frames fun _ => rfl
    · exact course_endStatementStages b t.line

theorem course_endScriptStages (b : Builder) (t : Token) :
    Course b.cells (b.endScriptStages t) (left Builder.cells (b.endScript t)) := by
  unfold endScriptStages endScript
  cases b.frames with
  | nil => exact (course_pushStages rfl).append (course_endStatementStages _ t.line)
  | cons frame frames =>
    dsimp only
    split <;> exact .done _

theorem readItem_of_kindOf? {kind : Cell.Kind} (h : kindOf? t.kind = some kind) :
    b.readItem t = .ok (b.push (.plain t kind)) := by
  unfold readItem
  cases hkind : t.kind <;> rw [hkind] at h <;> cases h <;> rfl

/-- A token that makes no cell, and is not the end of the source, changes no cell. -/
theorem left_readItem (h : kindOf? t.kind = none) (hend : t.kind ≠ .endOfInput) :
    left Builder.cells (b.readItem t) = b.cells := by
  have henter (bracket : Bracket) : left Builder.cells (b.enter bracket t) = b.cells := by
    unfold enter
    split <;> rfl
  unfold readItem
  cases hkind : t.kind
  case name | integer | ifWord | elseWord | whileWord | dot | plus | minus | star | slash =>
    rw [hkind] at h
    cases h
  case openParen | openBracket | openBrace => exact henter _
  case endOfInput => exact absurd hkind hend
  all_goals rfl

theorem course_readItemStages (b : Builder) (t : Token) :
    Course b.cells (b.readItemStages t) (left Builder.cells (b.readItem t)) := by
  unfold readItemStages
  cases hkind : kindOf? t.kind with
  | some kind =>
    rw [readItem_of_kindOf? hkind]
    exact course_pushStages rfl
  | none =>
    dsimp only
    split
    · next hend =>
      unfold readItem
      rw [hend]
      exact course_endScriptStages b t
    · next hend =>
      rw [left_readItem hkind hend]
      exact .done _

theorem course_closeBlockStages (b : Builder) (frame : Frame) (frames : List Frame)
    (line : Nat) :
    Course b.cells (b.closeBlockStages frame frames) (b.closeBlock frame frames line).cells := by
  have hcells : (b.closeBlock frame frames line).cells =
      (b.leave frame.outer frames
        ⟨frame.opener, .block, none, frame.body.map Strand.head, none⟩).cells := by
    unfold closeBlock
    dsimp only
    split <;> rfl
  rw [hcells]
  exact course_pushStages (b := { b with frames := frames, chain := frame.outer }) rfl

theorem course_readTokenStages (b : Builder) (t : Token) :
    Course b.cells (b.readTokenStages t) (left Builder.cells (b.readToken t)) := by
  unfold readTokenStages readToken
  split
  · exact course_endChainStages b t
  · split
    · cases b.closable? with
      | none => exact .done _
      | some closed => exact course_closeBlockStages b closed.1 closed.2 t.line
    · exact course_readItemStages b t

theorem course_structHeadStages (b : Builder) (word name : Token) :
    Course b.cells (b.structHeadStages word name) (b.pushStructHead word name).cells :=
  .step (.store ..) (course_pushStages (b := b.named name) rfl)

theorem course_readStages (b : Builder) (t : Token) :
    Course b.cells (b.readStages t) (left Builder.cells (b.read t)) := by
  unfold readStages Builder.read
  cases b.pending with
  | nothing => exact course_readTokenStages b t
  | structName word =>
    dsimp only
    split
    · exact course_structHeadStages b word t
    · exact .done _
  | equals sign =>
    dsimp only
    split
    · exact course_pushStages rfl
    · exact (course_pushStages rfl).append (course_readTokenStages _ t)
  | blockEnd line =>
    dsimp only
    split
    · exact course_endStatementStages b t.line
    · exact (course_endStatementStages b line).bind fun c _ => course_readTokenStages c t

/-- **Main theorem.** The stages of reading tokens leave no change out, up to the store that is
    left behind the tokens or where the builder stops. -/
theorem course_stages (b : Builder) (ts : List Token) :
    Course b.cells (b.stages ts) (left Builder.cells (b.readAll ts)) := by
  induction ts generalizing b with
  | nil => exact .step (.none _) (.done _)
  | cons t ts ih => exact .step (.none _) ((course_readStages b t).bind fun c _ => ih c)

end Builder

end ByteBricks.Syntax
