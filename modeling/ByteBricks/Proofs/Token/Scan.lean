import ByteBricks.Token.Scan

/-! # Scanning One Source Behind Another

  The tokens of a source do not depend on what stands in front of it, but for their
  offsets and lines. A line feed keeps the tokens of two sources apart: a scan of both
  gives the tokens of the first one, and behind them those of the second one. -/

namespace ByteBricks

/-- How far the tokens and trees of a source move when another source is put in front of
    it. -/
structure Shift where
  /-- The number of bytes in front. -/
  bytes : Nat
  /-- The number of lines in front. -/
  lines : Nat
  /-- The number of trees that are read in front. -/
  trees : Nat

namespace Token

/-! ### Moved Tokens -/

/-- The token as it is scanned with other text in front. -/
def shift (d : Shift) (t : Token) : Token :=
  { t with start := t.start + d.bytes, line := t.line + d.lines }

/-- The scan of the same text with other text in front. -/
def Scan.shift (d : Shift) (s : Scan) : Scan where
  tokens := s.tokens.map (Token.shift d)
  failure := s.failure.map fun e => { e with line := e.line + d.lines }

@[simp] theorem shift_kind (d : Shift) (t : Token) : (t.shift d).kind = t.kind := rfl
@[simp] theorem shift_text (d : Shift) (t : Token) : (t.shift d).text = t.text := rfl
@[simp] theorem shift_start (d : Shift) (t : Token) : (t.shift d).start = t.start + d.bytes := rfl

@[simp] theorem shift_stop (d : Shift) (t : Token) : (t.shift d).stop = t.stop + d.bytes := by
  show t.start + d.bytes + t.text.utf8ByteSize = t.start + t.text.utf8ByteSize + d.bytes
  omega

variable {cs as bs : List Char} {offset line : Nat}

theorem scanFrom_nil (offset line : Nat) :
    scanFrom [] offset line = ⟨[⟨.endOfInput, offset, "", line⟩], none⟩ := by
  rw [scanFrom]

theorem scanFrom_of_none (h : lexeme? cs = none) {c : Char} {rest : List Char}
    (hcs : cs = c :: rest) : scanFrom cs offset line = ⟨[], some ⟨c, line⟩⟩ := by
  subst hcs
  rw [scanFrom]
  split
  · rfl
  · next l hl => simp [h] at hl

/-- A scan takes the lexeme at the front and goes on behind it. -/
theorem scanFrom_of_lexeme {l : Lexeme} (h : lexeme? cs = some l) :
    scanFrom cs offset line =
      if l.kind.isTrivia then
        scanFrom l.rest (offset + (String.ofList l.text).utf8ByteSize) (line + l.text.count '\n')
      else
        (scanFrom l.rest (offset + (String.ofList l.text).utf8ByteSize) line).cons
          ⟨l.kind, offset, String.ofList l.text, line⟩ := by
  cases cs with
  | nil => simp [lexeme?] at h
  | cons c rest =>
    rw [scanFrom]
    split
    · next hl => simp [h] at hl
    · next l' hl =>
      rw [h] at hl
      cases hl
      rfl

theorem utf8ByteSize_of_lexeme {l : Lexeme} (h : lexeme? cs = some l) :
    (String.ofList cs).utf8ByteSize =
      (String.ofList l.text).utf8ByteSize + (String.ofList l.rest).utf8ByteSize := by
  rw [← text_append_rest_of_lexeme? h, String.ofList_append, String.utf8ByteSize_append]

theorem utf8ByteSize_pos_of_lexeme {l : Lexeme} (h : lexeme? cs = some l) :
    0 < (String.ofList l.text).utf8ByteSize := by
  obtain ⟨c, text, htext⟩ := List.exists_cons_of_ne_nil (text_ne_nil_of_lexeme? h)
  rw [htext, String.ofList_cons, String.utf8ByteSize_append, String.utf8ByteSize_singleton]
  have := c.utf8Size_pos
  omega

theorem scanFrom_shift (d : Shift) (cs : List Char) (offset line : Nat) :
    scanFrom cs (offset + d.bytes) (line + d.lines) = (scanFrom cs offset line).shift d := by
  fun_induction scanFrom cs offset line with
  | case1 offset line => rw [scanFrom_nil]; rfl
  | case2 offset line c rest hl => rw [scanFrom_of_none hl rfl]; rfl
  | case3 offset line c rest l hl hlt text htrivia ih =>
    rw [scanFrom_of_lexeme hl, if_pos htrivia, Nat.add_right_comm offset, Nat.add_right_comm line]
    exact ih
  | case4 offset line c rest l hl hlt text htrivia ih =>
    rw [scanFrom_of_lexeme hl, if_neg htrivia, Nat.add_right_comm offset]
    exact congrArg (Scan.cons _) ih

/-! ### Separated Sources -/

/-- A scan goes on behind a run of blanks. -/
theorem scanFrom_run {c : Char} (hc : isBlank c = true) (cs : List Char) (offset line : Nat) :
    scanFrom (c :: cs) offset line = scanFrom (cs.dropWhile isBlank)
      (offset + (String.ofList (c :: cs.takeWhile isBlank)).utf8ByteSize)
      (line + (c :: cs.takeWhile isBlank).count '\n') := by
  have hlexeme : lexeme? (c :: cs) = some (.run (fun _ => .whitespace) isBlank c cs) := by
    rw [lexeme?, if_pos hc]
  rw [scanFrom_of_lexeme hlexeme]
  rfl

/-- A blank at the front may as well be skipped alone. -/
theorem scanFrom_blank {c : Char} (hc : isBlank c = true) (cs : List Char) (offset line : Nat) :
    scanFrom (c :: cs) offset line =
      scanFrom cs (offset + (String.ofList [c]).utf8ByteSize) (line + [c].count '\n') := by
  rw [scanFrom_run hc]
  cases cs with
  | nil => rfl
  | cons e cs =>
    by_cases he : isBlank e = true
    · -- The rest of the run is a run again.
      rw [scanFrom_run he, List.dropWhile_cons_of_pos he, List.takeWhile_cons_of_pos he,
        ← List.singleton_append, String.ofList_append, String.utf8ByteSize_append,
        List.count_append, Nat.add_assoc, Nat.add_assoc]
    · rw [List.dropWhile_cons_of_neg he, List.takeWhile_cons_of_neg he]

theorem splitQuoted_append {inside after : List Char} (h : splitQuoted cs = some (inside, after))
    (bs : List Char) : splitQuoted (cs ++ bs) = some (inside, after ++ bs) := by
  fun_induction splitQuoted cs generalizing inside after with
  | case1 => simp at h
  | case2 rest =>
    obtain ⟨rfl, rfl⟩ := Prod.mk.inj (Option.some.inj h)
    rfl
  | case3 => simp at h
  | case4 c rest hc ih =>
    obtain ⟨⟨i, a⟩, hs, he⟩ := Option.map_eq_some_iff.1 h
    obtain ⟨rfl, rfl⟩ := Prod.mk.inj he
    rw [List.cons_append, List.cons_append, splitQuoted, if_neg hc, ih hs]
    rfl
  | case5 => simp at h
  | case6 c rest hquote hescape hlast ih =>
    obtain ⟨⟨i, a⟩, hs, he⟩ := Option.map_eq_some_iff.1 h
    obtain ⟨rfl, rfl⟩ := Prod.mk.inj he
    -- The other cases are about a backslash, with a character behind it or without one.
    have hc : c ≠ '\\' := by
      intro hc
      cases rest with
      | nil => exact hlast hc rfl
      | cons d rest => exact hescape d rest hc rfl
    rw [List.cons_append, splitQuoted, ih hs]
    · rfl
    · exact hquote
    · exact fun _ _ h _ => hc h
    · exact fun h _ => hc h

/-- A run ends where it did if what follows begins with a character outside of it. -/
theorem Lexeme.run_append (kind : List Char → Kind) {p : Char → Bool} {b : Char}
    (hb : p b = false) (c : Char) (cs bs : List Char) :
    Lexeme.run kind p c (cs ++ b :: bs) =
      { Lexeme.run kind p c cs with rest := (Lexeme.run kind p c cs).rest ++ b :: bs } := by
  have hparts : (cs ++ b :: bs).takeWhile p = cs.takeWhile p ∧
      (cs ++ b :: bs).dropWhile p = cs.dropWhile p ++ b :: bs := by
    induction cs with
    | nil => simp [hb]
    | cons d cs ih => by_cases hd : p d = true <;> simp [hd, ih]
  unfold Lexeme.run
  rw [hparts.1, hparts.2]

/-- Whether a character behind a lexeme could be read as a part of it. -/
def Lexeme.Extends (l : Lexeme) (b : Char) : Prop :=
  match l.kind with
  | .whitespace => isBlank b = true
  | .integer => b.isDigit = true
  | .lineComment => b ≠ '\n'
  | .slash => b = '/'
  | .name | .structWord | .ifWord | .elseWord | .whileWord => isNamePart b = true
  | _ => False

theorem wordKind_cases (word : List Char) :
    wordKind word = .structWord ∨ wordKind word = .ifWord ∨ wordKind word = .elseWord ∨
      wordKind word = .whileWord ∨ wordKind word = .name := by
  unfold wordKind
  split
  · simp
  split
  · simp
  split
  · simp
  split <;> simp

/-- A lexeme is the same if what follows the text begins with a character that could not be
    read as a part of it. -/
theorem lexeme?_append {l : Lexeme} (h : lexeme? cs = some l) {b : Char} (hb : ¬ l.Extends b)
    (bs : List Char) : lexeme? (cs ++ b :: bs) = some { l with rest := l.rest ++ b :: bs } := by
  cases cs with
  | nil => simp [lexeme?] at h
  | cons c cs =>
    rw [List.cons_append]
    unfold lexeme? at h ⊢
    dsimp only at h ⊢
    split at h
    · next hblank =>
      cases h
      rw [if_pos hblank, Lexeme.run_append _ (by simpa [Lexeme.Extends, Lexeme.run] using hb)]
    next hblank =>
    rw [if_neg hblank]
    split at h
    · next hdigit =>
      cases h
      rw [if_pos hdigit, Lexeme.run_append _ (by simpa [Lexeme.Extends, Lexeme.run] using hb)]
    next hdigit =>
    rw [if_neg hdigit]
    split at h
    · next hname =>
      cases h
      have hpart : isNamePart b = false := by
        unfold Lexeme.Extends Lexeme.run at hb
        rcases wordKind_cases (c :: cs.takeWhile isNamePart) with hk | hk | hk | hk | hk <;>
          simpa [hk] using hb
      rw [if_pos hname, Lexeme.run_append _ hpart]
    next hname =>
    rw [if_neg hname]
    split at h
    · next hquote =>
      obtain ⟨⟨inside, after⟩, hs, rfl⟩ := Option.map_eq_some_iff.1 h
      rw [if_pos hquote, splitQuoted_append hs]
      rfl
    next hquote =>
    rw [if_neg hquote]
    split at h
    · next hcomment =>
      cases h
      have hnewline : decide (b ≠ '\n') = false := by
        simpa [Lexeme.Extends, Lexeme.run] using hb
      obtain ⟨hslash, hhead⟩ : c = '/' ∧ cs.head? = some '/' := by simpa using hcomment
      have hcomment' : (c = '/' && (cs ++ b :: bs).head? = some '/') = true := by
        simp [hslash, List.head?_append, hhead]
      rw [if_pos hcomment', Lexeme.run_append _ hnewline]
    · next hcomment =>
      obtain ⟨kind, hkind, rfl⟩ := Option.map_eq_some_iff.1 h
      -- A single slash starts no comment when what follows is no slash either.
      have hcomment' : ¬ (c = '/' && (cs ++ b :: bs).head? = some '/') = true := by
        intro hslash
        obtain ⟨rfl, hhead⟩ : c = '/' ∧ (cs ++ b :: bs).head? = some '/' := by simpa using hslash
        obtain rfl : .slash = kind := Option.some.inj hkind
        cases cs with
        | nil => exact hb (Option.some.inj hhead)
        | cons d cs => exact hcomment (by simpa using hhead)
      rw [if_neg hcomment', hkind]
      rfl

/-- Only blanks make a lexeme that a line feed could be read as a part of. -/
theorem not_extends_newline {l : Lexeme} {c : Char} (h : lexeme? (c :: cs) = some l)
    (hc : isBlank c = false) : ¬ l.Extends '\n' := by
  unfold lexeme? at h
  dsimp only at h
  rw [if_neg (by simp [hc])] at h
  split at h
  · cases h
    simp [Lexeme.Extends, Lexeme.run]
  split at h
  · cases h
    rcases wordKind_cases (c :: cs.takeWhile isNamePart) with hk | hk | hk | hk | hk <;>
      simp [Lexeme.Extends, Lexeme.run, hk, isNamePart]
  split at h
  · obtain ⟨⟨inside, after⟩, hs, rfl⟩ := Option.map_eq_some_iff.1 h
    simp [Lexeme.Extends]
  split at h
  · cases h
    simp [Lexeme.Extends, Lexeme.run]
  · obtain ⟨kind, hkind, rfl⟩ := Option.map_eq_some_iff.1 h
    unfold symbolKind? at hkind
    split at hkind <;> simp at hkind <;> subst hkind <;> simp [Lexeme.Extends]

/-- A text that is scanned to its end gives the same tokens when a line feed and another
    text stand behind it, and the scan goes on with that text. -/
theorem scanFrom_append (as : List Char) (offset line : Nat)
    (h : (scanFrom as offset line).failure = none) :
    ∃ ts lines e, (scanFrom as offset line).tokens = ts ++ [e] ∧ e.kind = .endOfInput ∧
      ∀ bs, scanFrom (as ++ '\n' :: bs) offset line =
        let behind := scanFrom bs (offset + (String.ofList as).utf8ByteSize + 1) (line + lines + 1)
        { behind with tokens := ts ++ behind.tokens } := by
  -- The recursion is on the length of the text: what is left behind a lexeme is shorter.
  cases as with
  | nil =>
    refine ⟨[], 0, ⟨.endOfInput, offset, "", line⟩, ?_, rfl, fun bs => scanFrom_blank rfl bs _ _⟩
    rw [scanFrom_nil]
    rfl
  | cons c cs =>
    by_cases hc : isBlank c = true
    -- The line feed goes on with a run of blanks at the end, so blanks are skipped one by one.
    · rw [scanFrom_blank hc] at h ⊢
      obtain ⟨ts, lines, e, hts, he, hbehind⟩ := scanFrom_append cs _ _ h
      refine ⟨ts, [c].count '\n' + lines, e, hts, he, fun bs => ?_⟩
      have hsize : (String.ofList (c :: cs)).utf8ByteSize =
          (String.ofList [c]).utf8ByteSize + (String.ofList cs).utf8ByteSize := by
        rw [← String.utf8ByteSize_append, ← String.ofList_append, List.singleton_append]
      rw [List.cons_append, scanFrom_blank hc, hbehind, hsize, Nat.add_assoc offset,
        Nat.add_assoc line]
    · have hc : isBlank c = false := by simpa using hc
      cases hl : lexeme? (c :: cs) with
      | none =>
        rw [scanFrom_of_none hl rfl] at h
        simp at h
      | some l =>
        have hlt := length_rest_lt_of_lexeme? hl
        have happend := lexeme?_append hl (not_extends_newline hl hc)
        have hsize := utf8ByteSize_of_lexeme hl
        rw [scanFrom_of_lexeme hl] at h ⊢
        by_cases htrivia : l.kind.isTrivia = true
        · rw [if_pos htrivia] at h ⊢
          obtain ⟨ts, lines, e, hts, he, hbehind⟩ := scanFrom_append l.rest _ _ h
          refine ⟨ts, l.text.count '\n' + lines, e, hts, he, fun bs => ?_⟩
          rw [scanFrom_of_lexeme (happend bs), if_pos htrivia, hbehind, hsize,
            Nat.add_assoc offset, Nat.add_assoc line]
        · rw [if_neg htrivia] at h ⊢
          obtain ⟨ts, lines, e, hts, he, hbehind⟩ := scanFrom_append l.rest _ _ h
          refine ⟨⟨l.kind, offset, String.ofList l.text, line⟩ :: ts, lines, e, ?_, he,
            fun bs => ?_⟩
          · show _ :: (scanFrom l.rest _ _).tokens = _
            rw [hts]
            rfl
          · rw [scanFrom_of_lexeme (happend bs), if_neg htrivia, hbehind, hsize,
              Nat.add_assoc offset]
            rfl
  termination_by as.length

/-- **Main theorem.** Of two sources with a line feed between them, the scan gives the tokens
    of the first one without the one for its end, and behind them those of the second one. -/
theorem scan_append {a : String} (h : (scan a).failure = none) :
    ∃ ts e, (scan a).tokens = ts ++ [e] ∧ e.kind = .endOfInput ∧
      ∃ lines, ∀ (b : String) (d : Shift), d.bytes = a.utf8ByteSize + 1 → d.lines = lines →
        scan (a ++ "\n" ++ b) =
          { (scan b).shift d with tokens := ts ++ ((scan b).shift d).tokens } := by
  obtain ⟨ts, lines, e, hts, he, hbehind⟩ := scanFrom_append a.toList 0 1 h
  refine ⟨ts, e, hts, he, lines + 1, fun b d hbytes hlines => ?_⟩
  have hsource : (a ++ "\n" ++ b).toList = a.toList ++ '\n' :: b.toList := by simp
  unfold scan
  rw [hsource, hbehind, ← scanFrom_shift, hbytes, hlines]
  simp [Nat.add_assoc]

end Token

end ByteBricks
