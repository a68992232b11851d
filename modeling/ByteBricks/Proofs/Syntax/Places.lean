import ByteBricks.Proofs.Syntax.Steps

/-! # Reading without Places

  The reader looks at the kinds and the texts of its tokens. Where a token stands only shows
  in the lines of an error, and decides whether two equals signs touch and make a
  comparison. Main statement: tokens that are alike, the same equals signs of which touch,
  are read alike. -/

namespace ByteBricks

/-! ### Trees without Places -/

/-- The token with its kind and text alone. -/
def Token.unplaced (t : Token) : Token := { t with start := 0, line := 0 }

namespace Syntax

/-- The labels of tokens and trees without the places of the tokens. -/
def Relabelling.unplaced : Relabelling where
  token := Token.unplaced
  line _ := 0
  number n := n
  kind_token _ := rfl
  line_token _ := rfl
  token_comparison _ _ := rfl
  number_succ _ := rfl

/-- The reader without the places of the tokens that it has read. -/
def Reader.unplaced (r : Reader) : Reader := r.relabel .unplaced []

/-- The error without lines. -/
def Error.unlined (e : Error) : Error := e.mapLine fun _ => 0

/-! ### Steps of the Reader -/

namespace Reader

variable {r r' : Reader} {t t' : Token}

theorem read_alike (hr : r.unplaced = r'.unplaced) (ht : t.unplaced = t'.unplaced)
    (hjoins : r.joins t = r'.joins t') :
    bimap Error.unlined unplaced (r.read t) = bimap Error.unlined unplaced (r'.read t') := by
  have hread (r : Reader) (joined : Bool) (t : Token) :
      r.unplaced.readJoined joined t.unplaced =
        bimap Error.unlined unplaced (r.readJoined joined t) :=
    readJoined_relabel r joined t
  rw [read_eq_readJoined, read_eq_readJoined, hjoins, ← hread, ← hread, hr, ht]

/-- An equals sign that is pending behind a step is the token that was read. -/
theorem Step.pending (h : Step r t r') (hr : r.pending = .nothing) {sign : Token}
    (hsign : r'.pending = .equals sign) : sign = t ∧ t.kind = .equals := by
  cases h with
  | equals hkind =>
    cases hsign
    exact ⟨rfl, hkind⟩
  | word => cases hsign
  | structWord => cases hsign
  | enter bracket =>
    rw [show (r.entered bracket t).pending = r.pending from rfl, hr] at hsign
    cases hsign
  | leave => cases hsign
  | semicolon =>
    rw [ended_pending] at hsign
    cases hsign
  | closeBlock =>
    unfold Reader.closeBlock at hsign
    dsimp only at hsign
    split at hsign <;> cases hsign
  | endOfInput => cases hsign

theorem pending_of_readToken (h : r.readToken t = .ok r') (hr : r.pending = .nothing)
    {sign : Token} (hsign : r'.pending = .equals sign) : sign = t ∧ t.kind = .equals :=
  (readToken_eq_ok_iff.1 h).pending hr hsign

theorem pending_of_read (h : r.read t = .ok r') {sign : Token}
    (hsign : r'.pending = .equals sign) : sign = t ∧ t.kind = .equals := by
  unfold read at h
  split at h
  · next hpending => exact pending_of_readToken h hpending hsign
  · split at h
    · cases h
      cases hsign
    · simp at h
  · split at h
    · cases h
      cases hsign
    · exact pending_of_readToken h rfl hsign
  · split at h
    · obtain ⟨nodes, -, rfl⟩ := endStatement_eq_ok_iff.1 h
      rw [ended_pending] at hsign
      cases hsign
    · obtain ⟨u, hu, h⟩ := bind_eq_ok.1 h
      obtain ⟨nodes, -, rfl⟩ := endStatement_eq_ok_iff.1 hu
      exact pending_of_readToken h (ended_pending _ _) hsign

end Reader

end Syntax

/-! ### Alike Tokens -/

namespace Token

/-- Whether both tokens are equals signs, and the second one begins where the first one ends. -/
def touches (a b : Token) : Bool := a.kind == .equals && b.kind == .equals && b.start == a.stop

/-- Tokens that only differ in their places, and of which the same equals signs touch. -/
structure Alike (ts ts' : List Token) : Prop where
  /-- The tokens have the same kinds and texts. -/
  words : ts.map Token.unplaced = ts'.map Token.unplaced
  /-- The same tokens touch the ones in front of them. -/
  touching : List.zipWith touches ts ts.tail = List.zipWith touches ts' ts'.tail

theorem Alike.cases {t : Token} {ts us : List Token} (h : Alike (t :: ts) us) :
    ∃ t' ts', us = t' :: ts' ∧ t.unplaced = t'.unplaced ∧ Alike ts ts' ∧
      ∀ u ∈ ts.head?, ∀ u' ∈ ts'.head?, t.touches u = t'.touches u' := by
  obtain ⟨hwords, htouching⟩ := h
  cases us with
  | nil => simp at hwords
  | cons t' ts' =>
    obtain ⟨ht, hwords⟩ := List.cons.inj hwords
    refine ⟨t', ts', rfl, ht, ?_⟩
    cases ts with
    | nil =>
      cases ts' with
      | nil => exact ⟨⟨rfl, rfl⟩, by simp⟩
      | cons u' ts' => simp at hwords
    | cons u ts =>
      cases ts' with
      | nil => simp at hwords
      | cons u' ts' =>
        obtain ⟨hhead, htail⟩ := List.cons.inj htouching
        refine ⟨⟨hwords, htail⟩, ?_⟩
        simpa using hhead

end Token

namespace Syntax

open Token (Alike)

namespace Reader

variable {r r' : Reader} {t t' : Token}

theorem joins_alike (hr : r.unplaced = r'.unplaced)
    (hsign : ∀ sign, r.pending = .equals sign → sign = t ∧ t.kind = .equals)
    (hsign' : ∀ sign, r'.pending = .equals sign → sign = t' ∧ t'.kind = .equals) {u u' : Token}
    (htouches : t.touches u = t'.touches u') : r.joins u = r'.joins u' := by
  have hpending : r.pending.relabel .unplaced = r'.pending.relabel .unplaced :=
    congrArg Reader.pending hr
  unfold joins
  cases hp : r.pending <;> cases hp' : r'.pending <;> rw [hp, hp'] at hpending <;>
    first | rfl | cases hpending | skip
  next sign sign' =>
    obtain ⟨rfl, hkind⟩ := hsign sign hp
    obtain ⟨rfl, hkind'⟩ := hsign' sign' hp'
    unfold Token.touches at htouches
    rw [hkind, hkind'] at htouches
    simpa using htouches

/-- Tokens that are alike are read alike. -/
theorem readAll_alike {ts ts' : List Token} (hr : r.unplaced = r'.unplaced) (hts : Alike ts ts')
    (hjoins : ∀ u ∈ ts.head?, ∀ u' ∈ ts'.head?, r.joins u = r'.joins u') :
    (r.readAll ts).1.unplaced = (r'.readAll ts').1.unplaced ∧
      (r.readAll ts).2.map Error.unlined = (r'.readAll ts').2.map Error.unlined := by
  -- Of a token that is read, the next one has to know whether it is a pending equals sign.
  induction ts generalizing r r' ts' with
  | nil =>
    have hnil : ts' = [] := by
      have hwords := hts.words
      simpa using hwords.symm
    subst hnil
    exact ⟨hr, rfl⟩
  | cons t ts ih =>
    obtain ⟨t', ts', rfl, ht, hts, htouches⟩ := hts.cases
    have hread := read_alike hr ht (hjoins t rfl t' rfl)
    rw [readAll, readAll]
    cases hu : r.read t with
    | error e =>
      cases hu' : r'.read t' with
      | error e' =>
        rw [hu, hu'] at hread
        injection hread with hread
        exact ⟨hr, congrArg some hread⟩
      | ok u' => simp [hu, hu', bimap] at hread
    | ok u =>
      cases hu' : r'.read t' with
      | error e' => simp [hu, hu', bimap] at hread
      | ok u' =>
        rw [hu, hu'] at hread
        injection hread with hread
        refine ih hread hts ?_
        intro x hx x' hx'
        exact joins_alike hread (fun _ => pending_of_read hu) (fun _ => pending_of_read hu')
          (htouches x hx x' hx')

end Reader

/-! ### Scripts -/

/-- The script without the places of its tokens. -/
def Script.unplaced (s : Script) : Script :=
  ⟨s.statements.map (Node.relabelAll .unplaced), s.count⟩

/-- The failure without lines. -/
def Failure.unlined : Failure → Failure
  | .character e => .character { e with line := 0 }
  | .grammar e => .grammar e.unlined

mutual

theorem Node.render_unplaced : ∀ n : Node, (n.relabel .unplaced).render = n.render
  | .name o | .integer o | .control o _ | .structHead o _ => by
    rw [Node.relabel, render, render]
    rfl
  | .scriptEnd o => by rw [Node.relabel, render, render]
  | .paren o inner => by
    rw [Node.relabel, render, Node.renderChain_unplaced inner, render]
  | .block o body => by
    rw [Node.relabel, render, Node.renderChain_unplaced body, render]
  | .element o base index => by
    rw [Node.relabel, render, Node.render_unplaced base, Node.renderChain_unplaced index, render]
  | .binary o op lhs rhs => by
    rw [Node.relabel, render, Node.render_unplaced lhs, Node.render_unplaced rhs, render]

theorem Node.renderChain_unplaced : ∀ ns : List Node,
    Node.renderChain (Node.relabelAll .unplaced ns) = Node.renderChain ns
  | [] => rfl
  | [n] => by
    rw [Node.relabelAll, Node.relabelAll, renderChain, renderChain, Node.render_unplaced n]
  | n :: m :: rest => by
    have ih := Node.renderChain_unplaced (m :: rest)
    rw [Node.relabelAll] at ih
    rw [Node.relabelAll, Node.relabelAll, renderChain, ih, renderChain, Node.render_unplaced n]

end

theorem Script.render_unplaced (s : Script) : s.unplaced.render = s.render := by
  unfold render unplaced
  rw [List.map_map]
  exact List.map_congr_left fun chain _ => Node.renderChain_unplaced chain

/-- **Main theorem.** Two sources whose tokens are alike are the same script but for the places
    of their tokens, or fail for the same reason. -/
theorem Script.ofSource_alike {a b : String} (ha : (Token.scan a).failure = none)
    (hb : (Token.scan b).failure = none)
    (h : Alike (Token.scan a).tokens (Token.scan b).tokens) :
    bimap Failure.unlined Script.unplaced (ofSource a) =
      bimap Failure.unlined Script.unplaced (ofSource b) := by
  have hstart : (Reader.start 0).unplaced = (Reader.start 0).unplaced := rfl
  obtain ⟨hreader, herror⟩ := Reader.readAll_alike hstart h fun _ _ _ _ => rfl
  unfold ofSource readFrom
  rw [ha, hb]
  revert hreader herror
  rcases (Reader.start 0).readAll (Token.scan a).tokens with ⟨r, _ | e⟩ <;>
    rcases (Reader.start 0).readAll (Token.scan b).tokens with ⟨r', _ | e'⟩
  · intro hreader _
    have hstatements : r.statements.map (Node.relabelAll .unplaced) =
        r'.statements.map (Node.relabelAll .unplaced) := by
      simpa [Reader.unplaced, Reader.relabel] using congrArg Reader.statements hreader
    have hcount : r.unplaced.count = r'.unplaced.count := congrArg Reader.count hreader
    have hcount : r.count = r'.count := hcount
    show Except.ok _ = Except.ok _
    unfold Script.unplaced
    rw [List.map_reverse, List.map_reverse, hstatements, hcount]
  · simp
  · simp
  · intro _ herror
    show Except.error _ = Except.error _
    injection herror with herror
    exact congrArg (fun e => Except.error (Failure.grammar e)) herror

end Syntax

end ByteBricks
