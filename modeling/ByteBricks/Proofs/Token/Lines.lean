import ByteBricks.Proofs.Label
import ByteBricks.Proofs.Token.Pieces
import Mathlib.Algebra.GroupWithZero.Nat

/-! # The Lines of Tokens

  A place of a source is on a line: one more than the line feeds in front of it. A scan
  counts the line feeds of the white space that it skips. Among the other words only a
  string literal can hold line feeds, and these are not counted: each token behind the
  literal is counted on a line that is too low by their number. Main statement: a scan counts
  all lines as they are if and only if no string literal of the source goes over the end of a
  line. A counter of 32 bits holds the lines of every source that does not have more. -/

namespace ByteBricks.Token

/-! ### Lines of a Source -/

/-- The line of what stands behind a text, from 1. -/
def lineBehind (front : List Char) : Nat := front.count '\n' + 1

/-- The line of an offset into a source, which counts UTF-8 bytes. -/
def lineAt (source : String) (offset : Nat) : Nat :=
  lineBehind (Label.takeBytes offset source.toList)

theorem takeBytes_append (front back : List Char) :
    Label.takeBytes (String.ofList front).utf8ByteSize (front ++ back) = front := by
  induction front with
  | nil =>
    cases back with
    | nil => rfl
    | cons c cs =>
      have hpos := c.utf8Size_pos
      show Label.takeBytes 0 (c :: cs) = []
      rw [Label.takeBytes, if_neg (by omega)]
  | cons c cs ih =>
    have hsize : (String.ofList (c :: cs)).utf8ByteSize =
        c.utf8Size + (String.ofList cs).utf8ByteSize := by
      rw [String.ofList_cons, String.utf8ByteSize_append, String.utf8ByteSize_singleton]
    rw [hsize, List.cons_append, Label.takeBytes, if_pos (by omega), Nat.add_sub_cancel_left, ih]

/-- The offset behind the front of a source is on the line behind the front. -/
theorem lineAt_of_append {source : String} {front back : List Char} {offset : Nat}
    (h : source.toList = front ++ back) (hoffset : (String.ofList front).utf8ByteSize = offset) :
    lineAt source offset = lineBehind front := by
  unfold lineAt
  rw [h, ← hoffset, takeBytes_append]

theorem lineBehind_append (front text : List Char) :
    lineBehind (front ++ text) = lineBehind front + text.count '\n' := by
  unfold lineBehind
  rw [List.count_append]
  omega

/-- The last line that a counter of 32 bits gets to. -/
def maxLine : Nat := 4294967295

theorem lineBehind_le_of_append {source front back : List Char} (h : source = front ++ back) :
    lineBehind front ≤ lineBehind source := by
  rw [h, lineBehind_append]
  omega

/-- No offset is behind the last line. -/
theorem lineAt_le (source : String) (offset : Nat) :
    lineAt source offset ≤ lineBehind source.toList := by
  obtain ⟨rest, hsource, -⟩ := Label.takeBytes_append_rest offset source.toList
  exact lineBehind_le_of_append hsource

/-! ### Line Feeds in Words -/

/-- Only white space and string literals hold line feeds. -/
theorem newline_not_mem {cs : List Char} {l : Lexeme} (h : lexeme? cs = some l)
    (hblank : l.kind ≠ .whitespace) (hquote : l.kind ≠ .string) : '\n' ∉ l.text := by
  cases cs with
  | nil => simp [lexeme?] at h
  | cons c cs =>
    -- A run does not hold what neither its first character nor its class is.
    have hrun : ∀ {kind : List Char → Kind} {p : Char → Bool}, c ≠ '\n' → p '\n' = false →
        '\n' ∉ (Lexeme.run kind p c cs).text := by
      intro kind p hc hp hmem
      rcases List.mem_cons.1 hmem with heq | hmem
      · exact hc heq.symm
      · have := List.mem_takeWhile_imp hmem
        simp [hp] at this
    unfold lexeme? at h
    dsimp only at h
    split at h
    · cases h
      exact absurd rfl hblank
    split at h
    · next hdigit =>
      cases h
      exact hrun (by rintro rfl; simp at hdigit) rfl
    split at h
    · next hname =>
      cases h
      exact hrun (by rintro rfl; simp [isNameStart] at hname) rfl
    split at h
    · obtain ⟨⟨inside, after⟩, hs, rfl⟩ := Option.map_eq_some_iff.1 h
      exact absurd rfl hquote
    split at h
    · next hcomment =>
      cases h
      exact hrun (by rintro rfl; simp at hcomment) (by simp)
    · obtain ⟨kind, hkind, rfl⟩ := Option.map_eq_some_iff.1 h
      intro hmem
      rw [← List.mem_singleton.1 hmem] at hkind
      simp [symbolKind?] at hkind

/-- The line feeds in the string literals among tokens. -/
def quotedFeeds (ts : List Token) : Nat :=
  ((ts.filter (·.kind = .string)).map (·.text.toList.count '\n')).sum

theorem quotedFeeds_append (ts us : List Token) :
    quotedFeeds (ts ++ us) = quotedFeeds ts + quotedFeeds us := by
  unfold quotedFeeds
  rw [List.filter_append, List.map_append, List.sum_append]

/-- A token of a lexeme that is no white space holds line feeds only as a literal. -/
theorem quotedFeeds_singleton {cs : List Char} {l : Lexeme} (h : lexeme? cs = some l)
    (htrivia : ¬ l.kind.isTrivia = true) (offset line : Nat) :
    quotedFeeds [⟨l.kind, offset, String.ofList l.text, line⟩] = l.text.count '\n' := by
  by_cases hquote : l.kind = .string
  · simp [quotedFeeds, hquote]
  · have hblank : l.kind ≠ .whitespace := by
      intro hblank
      simp [hblank, Kind.isTrivia] at htrivia
    have hnone : l.text.count '\n' = 0 := List.count_eq_zero.2 (newline_not_mem h hblank hquote)
    simp [quotedFeeds, hquote, hnone]

/-- No line feed is in a literal if no literal holds one. -/
theorem quotedFeeds_eq_zero_iff {ts : List Token} :
    quotedFeeds ts = 0 ↔ ∀ t ∈ ts, t.kind = .string → '\n' ∉ t.text.toList := by
  unfold quotedFeeds
  rw [List.sum_eq_zero_iff_forall_eq_nat, List.forall_mem_map]
  simp [List.count_eq_zero]

/-! ### Lines of a Scan -/

/-- What a token is counted on, and the line feeds of the literals in front of it, make the line
    that the token is on. The scan starts behind a text with `quoted` line feeds in literals. -/
theorem line_of_scanFrom (cs : List Char) (offset line : Nat) (front : List Char) (quoted : Nat)
    (hoffset : (String.ofList front).utf8ByteSize = offset)
    (hline : line + quoted = lineBehind front) {us vs : List Token} {t : Token}
    (h : (scanFrom cs offset line).tokens = us ++ t :: vs) :
    ∃ before after, front ++ cs = before ++ after ∧
      (String.ofList before).utf8ByteSize = t.start ∧
      t.line + quotedFeeds us + quoted = lineBehind before := by
  fun_induction scanFrom cs offset line generalizing front quoted us with
  | case1 offset line =>
    obtain ⟨rfl, ht⟩ := List.append_eq_singleton_iff.1 h.symm |>.resolve_right (by simp)
    cases ht
    exact ⟨front, [], rfl, hoffset, hline⟩
  | case2 => simp at h
  | case3 offset line c rest l hl hlt text htrivia ih =>
    -- The line feeds of white space are counted.
    obtain ⟨before, after, happend, hstart, hlines⟩ := ih (front ++ l.text) quoted
      (by simp [hoffset, text]) (by rw [lineBehind_append]; omega) h
    refine ⟨before, after, ?_, hstart, hlines⟩
    rw [← happend, List.append_assoc, text_append_rest_of_lexeme? hl]
  | case4 offset line c rest l hl hlt text htrivia ih =>
    cases us with
    | nil =>
      cases h
      exact ⟨front, c :: rest, rfl, hoffset, hline⟩
    | cons u us =>
      obtain ⟨rfl, hbehind⟩ := List.cons.inj h
      -- Those of a literal are not, and all later tokens miss them.
      have hfeeds := quotedFeeds_singleton hl htrivia offset line
      obtain ⟨before, after, happend, hstart, hlines⟩ := ih (front ++ l.text)
        (quoted + l.text.count '\n') (by simp [hoffset, text])
        (by rw [lineBehind_append]; omega) hbehind
      refine ⟨before, after, ?_, hstart, ?_⟩
      · rw [← happend, List.append_assoc, text_append_rest_of_lexeme? hl]
      · rw [← List.singleton_append, quotedFeeds_append, hfeeds]
        omega

/-- The character stands behind a part of a source, at the first place where no rule matches. -/
def Unrecognized.StandsBehind (e : Unrecognized) (source before : List Char) : Prop :=
  ∃ pieces rest, source = before ++ e.character :: rest ∧
    Cut source pieces (e.character :: rest) ∧ Unmatched (e.character :: rest)

/-- There is one such place. -/
theorem Unrecognized.StandsBehind.unique {e : Unrecognized} {source before before' : List Char}
    (h : e.StandsBehind source before) (h' : e.StandsBehind source before') : before = before' := by
  obtain ⟨pieces, rest, hsource, hcut, hback⟩ := h
  obtain ⟨pieces', rest', hsource', hcut', hback'⟩ := h'
  obtain ⟨-, hrest⟩ := hcut.unique hcut' hback hback'
  rw [hrest] at hsource
  exact List.append_cancel_right (hsource.symm.trans hsource')

/-- The same holds of the character that stops a scan. -/
theorem line_of_failure (cs : List Char) (offset line : Nat) (front : List Char) (quoted : Nat)
    (hline : line + quoted = lineBehind front) {e : Unrecognized}
    (h : (scanFrom cs offset line).failure = some e) :
    ∃ before, e.StandsBehind cs before ∧
      e.line + quotedFeeds (scanFrom cs offset line).tokens + quoted =
        lineBehind (front ++ before) := by
  fun_induction scanFrom cs offset line generalizing front quoted with
  | case1 => simp at h
  | case2 offset line c rest hl =>
    cases h
    refine ⟨[], ⟨[], rest, rfl, .stop _, lexeme?_eq_none_iff.1 hl⟩, ?_⟩
    rw [List.append_nil]
    exact hline
  | case3 offset line c rest l hl hlt text htrivia ih =>
    obtain ⟨before, ⟨pieces, back, hrest, hcut, hback⟩, hlines⟩ := ih (front ++ l.text) quoted
      (by rw [lineBehind_append]; omega) h
    refine ⟨l.text ++ before, ⟨_, back, ?_, .lexeme hl hcut, hback⟩, ?_⟩
    · rw [List.append_assoc, ← hrest, text_append_rest_of_lexeme? hl]
    · rw [← List.append_assoc]
      exact hlines
  | case4 offset line c rest l hl hlt text htrivia ih =>
    have hfeeds := quotedFeeds_singleton hl htrivia offset line
    obtain ⟨before, ⟨pieces, back, hrest, hcut, hback⟩, hlines⟩ := ih (front ++ l.text)
      (quoted + l.text.count '\n') (by rw [lineBehind_append]; omega) h
    refine ⟨l.text ++ before, ⟨_, back, ?_, .lexeme hl hcut, hback⟩, ?_⟩
    · rw [List.append_assoc, ← hrest, text_append_rest_of_lexeme? hl]
    · show e.line + quotedFeeds (⟨l.kind, offset, text, line⟩ :: (scanFrom l.rest _ line).tokens) +
        quoted = lineBehind (front ++ (l.text ++ before))
      rw [← List.singleton_append, quotedFeeds_append, hfeeds, ← List.append_assoc]
      omega

/-- Each token of a source is counted on its own line. -/
def TokensNumbered (source : String) : Prop :=
  ∀ t ∈ (scan source).tokens, t.line = lineAt source t.start

instance (source : String) : Decidable (TokensNumbered source) :=
  inferInstanceAs (Decidable (∀ t ∈ (scan source).tokens, t.line = lineAt source t.start))

/-- The character that stops the scan of a source is counted on its own line. -/
def FailureNumbered (source : String) : Prop :=
  ∀ e, (scan source).failure = some e →
    ∃ before, e.StandsBehind source.toList before ∧ e.line = lineBehind before

section Source

variable {source : String}

theorem line_of_scan {us vs : List Token} {t : Token}
    (h : (scan source).tokens = us ++ t :: vs) :
    t.line + quotedFeeds us = lineAt source t.start := by
  obtain ⟨before, after, happend, hstart, hlines⟩ :=
    line_of_scanFrom source.toList 0 1 [] 0 rfl rfl h
  rw [lineAt_of_append happend hstart]
  exact hlines

theorem line_of_stopped {e : Unrecognized} (h : (scan source).failure = some e) :
    ∃ before, e.StandsBehind source.toList before ∧
      e.line + quotedFeeds (scan source).tokens = lineBehind before :=
  line_of_failure source.toList 0 1 [] 0 rfl h

/-- The last token of a source that is scanned up to its end is no literal. -/
theorem exists_behind_literal (h : (scan source).failure = none) {us vs : List Token} {t : Token}
    (htokens : (scan source).tokens = us ++ t :: vs) (ht : t.kind = .string) : vs ≠ [] := by
  rintro rfl
  obtain ⟨ts, line, hends, -⟩ := (exact_of_scan h).ends
  rw [htokens] at hends
  have hlast := (List.append_inj_right' hends rfl)
  cases hlast
  cases ht

/-- No line is counted that the source does not have. -/
theorem line_le_of_mem {t : Token} (ht : t ∈ (scan source).tokens) :
    t.line ≤ lineBehind source.toList := by
  obtain ⟨us, vs, hsplit⟩ := List.append_of_mem ht
  have hline := line_of_scan hsplit
  have hlast := lineAt_le source t.start
  omega

theorem line_le_of_stopped {e : Unrecognized} (he : (scan source).failure = some e) :
    e.line ≤ lineBehind source.toList := by
  obtain ⟨before, ⟨pieces, rest, hsource, -⟩, hline⟩ := line_of_stopped he
  have hlast := lineBehind_le_of_append hsource
  omega

/-- **Main theorem.** A token is counted on the line that it is on less the line feeds in the
    string literals in front of it, and so is the character that stops a scan. All tokens and
    this character are counted on their own lines if and only if no string literal of the
    source holds a line feed. No line is too large for 32 bits unless the source has so many. -/
theorem numbered_iff (source : String) :
    (∀ us t vs, (scan source).tokens = us ++ t :: vs →
      t.line + quotedFeeds us = lineAt source t.start) ∧
    (∀ e, (scan source).failure = some e → ∃ before, e.StandsBehind source.toList before ∧
      e.line + quotedFeeds (scan source).tokens = lineBehind before) ∧
    (TokensNumbered source ∧ FailureNumbered source ↔
      ∀ t ∈ (scan source).tokens, t.kind = .string → '\n' ∉ t.text.toList) ∧
    (source.toList.count '\n' < maxLine →
      (∀ t ∈ (scan source).tokens, t.line ≤ maxLine) ∧
      ∀ e, (scan source).failure = some e → e.line ≤ maxLine) := by
  refine ⟨fun us t vs h => line_of_scan h, fun e h => line_of_stopped h, ⟨?_, ?_⟩, fun hfeeds =>
    ⟨fun t ht => (line_le_of_mem ht).trans hfeeds,
      fun e he => (line_le_of_stopped he).trans hfeeds⟩⟩
  · rintro ⟨htokens, hfailure⟩ t ht hkind
    obtain ⟨us, vs, hsplit⟩ := List.append_of_mem ht
    have hzero : quotedFeeds (us ++ [t]) = 0 := by
      cases vs with
      | cons v vs =>
        -- The token behind the literal is on its line.
        have hbehind : (scan source).tokens = (us ++ [t]) ++ v :: vs := by simp [hsplit]
        have hv := htokens v (by simp [hsplit])
        have hline := line_of_scan hbehind
        omega
      | nil =>
        -- There is none, so the scan is stopped behind the literal.
        cases he : (scan source).failure with
        | none => exact absurd rfl (exists_behind_literal he hsplit hkind)
        | some e =>
          obtain ⟨before, hbefore, hline⟩ := line_of_stopped he
          obtain ⟨before', hbefore', hown⟩ := hfailure e he
          rw [hbefore.unique hbefore', hsplit] at hline
          omega
    exact quotedFeeds_eq_zero_iff.1 hzero t (by simp) hkind
  · intro hliterals
    constructor
    · intro t ht
      obtain ⟨us, vs, hsplit⟩ := List.append_of_mem ht
      have hzero : quotedFeeds us = 0 :=
        quotedFeeds_eq_zero_iff.2 fun u hu => hliterals u (by simp [hsplit, hu])
      have hline := line_of_scan hsplit
      omega
    · intro e he
      have hzero := quotedFeeds_eq_zero_iff.2 hliterals
      obtain ⟨before, hbefore, hline⟩ := line_of_stopped he
      exact ⟨before, hbefore, by omega⟩

end Source

/-- A name on the second line, behind a literal that begins on the first one. -/
theorem literal_not_numbered :
    (scan "\"\n\" x").failure = none ∧ ¬ TokensNumbered "\"\n\" x" := by
  decide +kernel

end ByteBricks.Token
