import ByteBricks.Proofs.Token.Rules

/-! # Cutting a Source into Pieces

  A source is cut into its longest matches from the front, up to its end or up to a place
  where no rule matches. Blanks and comments are left out of the tokens, and nothing else is:
  they fill the gaps between the tokens. -/

namespace ByteBricks.Token

open Computability

/-! ### Pieces -/

/-- The front of a text is cut into pieces, each of which is the longest match at its place.
    Some text is left behind the last piece. -/
inductive Cut : List Char → List Word → List Char → Prop where
  /-- Nothing is cut off. -/
  | stop (cs : List Char) : Cut cs [] cs
  /-- A longest match is cut off, and pieces behind it. -/
  | piece {kind : Kind} {w rest back : List Char} {pieces : List Word} :
    IsLongest kind w rest → Cut rest pieces back →
      Cut (w ++ rest) (⟨kind, String.ofList w⟩ :: pieces) back

theorem isLongest_of_lexeme? {cs : List Char} {l : Lexeme} (h : lexeme? cs = some l) :
    IsLongest l.kind l.text l.rest := by
  apply lexeme?_eq_some_iff.1
  rw [text_append_rest_of_lexeme? h]
  exact h

/-- The lexeme is cut off first. -/
theorem Cut.lexeme {cs back : List Char} {l : Lexeme} {pieces : List Word}
    (h : lexeme? cs = some l) (hrest : Cut l.rest pieces back) :
    Cut cs (⟨l.kind, String.ofList l.text⟩ :: pieces) back := by
  rw [← text_append_rest_of_lexeme? h]
  exact .piece (isLongest_of_lexeme? h) hrest

theorem unmatched_nil : Unmatched [] := by
  intro kind w rest happend hmem
  exact ne_nil_of_mem hmem (List.append_eq_nil_iff.1 happend).1

theorem IsLongest.not_unmatched {kind : Kind} {w rest : List Char} (h : IsLongest kind w rest) :
    ¬ Unmatched (w ++ rest) :=
  fun hnone => hnone kind w rest rfl h.matched

/-- There is one way to cut a text as far as any rule matches. -/
theorem Cut.unique {cs back back' : List Char} {pieces pieces' : List Word}
    (h : Cut cs pieces back) (h' : Cut cs pieces' back') (hback : Unmatched back)
    (hback' : Unmatched back') : pieces = pieces' ∧ back = back' := by
  induction h generalizing pieces' with
  | stop cs =>
    cases h' with
    | stop => exact ⟨rfl, rfl⟩
    | piece hpiece _ => exact absurd hback hpiece.not_unmatched
  | @piece kind w rest back pieces hpiece hrest ih =>
    generalize hcs : w ++ rest = cs at h'
    cases h' with
    | stop =>
      subst hcs
      exact absurd hback' hpiece.not_unmatched
    | @piece kind' w' rest' _ pieces' hpiece' hrest' =>
      -- Both pieces are the lexeme at this place.
      have hlexeme := lexeme?_eq_some_iff.2 hpiece
      rw [hcs, lexeme?_eq_some_iff.2 hpiece'] at hlexeme
      cases hlexeme
      obtain ⟨rfl, rfl⟩ := ih hrest' hback
      exact ⟨rfl, rfl⟩

/-- A scan cuts its text as far as any rule matches, and its tokens are the pieces that are
    no trivia. -/
theorem cut_of_scanFrom (cs : List Char) (offset line : Nat) :
    ∃ pieces back, Cut cs pieces back ∧ Unmatched back ∧
      (scanFrom cs offset line).failure.map Unrecognized.character = back.head? ∧
      (back = [] → (scanFrom cs offset line).tokens.map word =
        pieces.filter (!·.kind.isTrivia) ++ [⟨.endOfInput, ""⟩]) := by
  fun_induction scanFrom cs offset line with
  | case1 offset line => exact ⟨[], [], .stop _, unmatched_nil, rfl, fun _ => rfl⟩
  | case2 offset line c rest hl =>
    exact ⟨[], c :: rest, .stop _, lexeme?_eq_none_iff.1 hl, rfl, by simp⟩
  | case3 offset line c rest l hl hlt text htrivia ih =>
    obtain ⟨pieces, back, hcut, hback, hfailure, htokens⟩ := ih
    refine ⟨_, back, .lexeme hl hcut, hback, hfailure, ?_⟩
    intro hnil
    rw [List.filter_cons_of_neg (by simp [htrivia]), htokens hnil]
  | case4 offset line c rest l hl hlt text htrivia ih =>
    obtain ⟨pieces, back, hcut, hback, hfailure, htokens⟩ := ih
    refine ⟨_, back, .lexeme hl hcut, hback, hfailure, ?_⟩
    intro hnil
    rw [List.filter_cons_of_pos (by simp [htrivia]), List.cons_append, ← htokens hnil]
    rfl

/-! ### Places -/

/-- Any amount of white space and comments. -/
def gaps : Language Char := (Kind.language .whitespace + Kind.language .lineComment)∗

/-- The tokens of a text that stands behind other text: each is the longest match at its place,
    and only gaps are between them. -/
inductive Laid : List Char → List Char → List Token → Prop where
  /-- Behind the last word there is the end of the source. -/
  | last {front gap : List Char} {line : Nat} : gap ∈ gaps →
    Laid front gap [⟨.endOfInput, (String.ofList (front ++ gap)).utf8ByteSize, "", line⟩]
  /-- A word comes first. -/
  | word {front gap w rest : List Char} {kind : Kind} {line : Nat} {ts : List Token} :
    gap ∈ gaps → IsLongest kind w rest → Laid (front ++ gap ++ w) rest ts →
      Laid front (gap ++ (w ++ rest))
        (⟨kind, (String.ofList (front ++ gap)).utf8ByteSize, String.ofList w, line⟩ :: ts)

/-- Trivia in front make the first gap longer. -/
theorem Laid.skip {front piece cs : List Char} {ts : List Token}
    (hpiece : piece ∈ Kind.language .whitespace + Kind.language .lineComment)
    (h : Laid (front ++ piece) cs ts) : Laid front (piece ++ cs) ts := by
  cases h with
  | last hgap =>
    rw [List.append_assoc]
    exact .last (mem_kstar_cons hpiece hgap)
  | word hgap hword hrest =>
    rw [List.append_assoc front] at hrest ⊢
    rw [← List.append_assoc piece]
    exact .word (mem_kstar_cons hpiece hgap) hword hrest

/-- The lexeme of a text is its first word, or it makes the first gap longer. -/
theorem Laid.lexeme {front cs : List Char} {l : Lexeme} (line : Nat) {ts : List Token}
    (h : lexeme? cs = some l) (hrest : Laid (front ++ l.text) l.rest ts) :
    Laid front cs (if l.kind.isTrivia then ts else
      ⟨l.kind, (String.ofList front).utf8ByteSize, String.ofList l.text, line⟩ :: ts) := by
  rw [← text_append_rest_of_lexeme? h]
  split
  · next htrivia =>
    apply hrest.skip
    have hmem := mem_of_lexeme? h
    unfold Kind.isTrivia at htrivia
    split at htrivia
    · next hkind => exact .inr (hkind ▸ hmem)
    · next hkind => exact .inl (hkind ▸ hmem)
    · simp at htrivia
  · have hword : Laid front ([] ++ (l.text ++ l.rest))
        (⟨l.kind, (String.ofList (front ++ [])).utf8ByteSize, String.ofList l.text, line⟩ :: ts) :=
      .word (Language.nil_mem_kstar _) (isLongest_of_lexeme? h) (by rwa [List.append_nil])
    rwa [List.append_nil, List.nil_append] at hword

/-- The tokens of a scan are laid behind the text in front of it. -/
theorem laid_of_scanFrom (cs : List Char) (offset line : Nat) (front : List Char)
    (hfront : (String.ofList front).utf8ByteSize = offset)
    (h : (scanFrom cs offset line).failure = none) :
    Laid front cs (scanFrom cs offset line).tokens := by
  fun_induction scanFrom cs offset line generalizing front with
  | case1 offset line =>
    have hlast : Laid front []
        [⟨.endOfInput, (String.ofList (front ++ [])).utf8ByteSize, "", line⟩] :=
      .last (Language.nil_mem_kstar _)
    rwa [List.append_nil, hfront] at hlast
  | case2 => simp at h
  | case3 offset line c rest l hl hlt text htrivia ih =>
    have hlaid := Laid.lexeme line hl (ih (front ++ l.text) (by simp [hfront, text]) h)
    rwa [if_pos htrivia] at hlaid
  | case4 offset line c rest l hl hlt text htrivia ih =>
    have hlaid := Laid.lexeme line hl (ih (front ++ l.text) (by simp [hfront, text]) h)
    rwa [if_neg htrivia, hfront] at hlaid

section Laid

variable {front cs : List Char} {ts : List Token}

theorem Laid.le_start (h : Laid front cs ts) :
    ∀ t ∈ ts, (String.ofList front).utf8ByteSize ≤ t.start := by
  induction h with
  | last hgap => simp
  | word hgap hword hrest ih =>
    refine List.forall_mem_cons.2 ⟨by simp, fun t ht => ?_⟩
    have hle := ih t ht
    simp only [String.ofList_append, String.utf8ByteSize_append] at hle
    omega

/-- No token begins in front of the end of an earlier one. -/
theorem Laid.ascending (h : Laid front cs ts) : ts.Pairwise fun a b => a.stop ≤ b.start := by
  induction h with
  | last hgap => exact List.pairwise_singleton _ _
  | @word front gap w rest kind line ts hgap hword hrest ih =>
    refine List.pairwise_cons.2 ⟨fun t ht => ?_, ih⟩
    have hle := hrest.le_start t ht
    rw [String.ofList_append, String.utf8ByteSize_append] at hle
    exact hle

/-- The last token, and no other, is the end of the source. -/
theorem Laid.ends (h : Laid front cs ts) : ∃ us line,
    ts = us ++ [⟨.endOfInput, (String.ofList (front ++ cs)).utf8ByteSize, "", line⟩] ∧
      ∀ t ∈ us, t.kind ≠ .endOfInput := by
  induction h with
  | @last front gap line hgap => exact ⟨[], line, rfl, by simp⟩
  | @word front gap w rest kind line ts hgap hword hrest ih =>
    obtain ⟨us, line', rfl, hus⟩ := ih
    have hfirst : kind ≠ .endOfInput := by
      rintro rfl
      exact not_mem_endOfInput hword.matched
    refine ⟨⟨kind, (String.ofList (front ++ gap)).utf8ByteSize, String.ofList w, line⟩ :: us, line',
      ?_, List.forall_mem_cons.2 ⟨hfirst, hus⟩⟩
    simp only [List.cons_append, List.append_assoc]

/-- Each token stands in the text where it says, as the longest match there. -/
theorem Laid.stands (h : Laid front cs ts) : ∀ t ∈ ts, t.kind ≠ .endOfInput →
    ∃ before after, front ++ cs = before ++ (t.text.toList ++ after) ∧
      (String.ofList before).utf8ByteSize = t.start ∧ IsLongest t.kind t.text.toList after := by
  induction h with
  | last hgap => simp
  | @word front gap w rest kind line ts hgap hword hrest ih =>
    refine List.forall_mem_cons.2 ⟨fun _ => ⟨front ++ gap, rest, ?_, rfl, ?_⟩, fun t ht hkind => ?_⟩
    · simp
    · rwa [String.toList_ofList]
    · obtain ⟨before, after, happend, hstart, hlongest⟩ := ih t ht hkind
      refine ⟨before, after, ?_, hstart, hlongest⟩
      rw [← happend]
      simp

/-- In front of each token there are gaps only, up to the token before it. -/
theorem Laid.between (h : Laid front cs ts) {us vs : List Token} {t : Token}
    (hts : ts = us ++ t :: vs) : ∃ before gap after, front ++ cs = before ++ (gap ++ after) ∧
      (String.ofList before).utf8ByteSize =
        (us.getLast?.map stop).getD (String.ofList front).utf8ByteSize ∧
      (String.ofList (before ++ gap)).utf8ByteSize = t.start ∧ gap ∈ gaps := by
  induction h generalizing us with
  | @last front gap line hgap =>
    obtain ⟨rfl, ht⟩ := List.append_eq_singleton_iff.1 hts.symm |>.resolve_right (by simp)
    cases ht
    exact ⟨front, gap, [], by simp, rfl, rfl, hgap⟩
  | @word front gap w rest kind line ts hgap hword hrest ih =>
    cases us with
    | nil =>
      cases hts
      exact ⟨front, gap, w ++ rest, rfl, rfl, rfl, hgap⟩
    | cons u us =>
      obtain ⟨rfl, hbehind⟩ := List.cons.inj hts
      obtain ⟨before, gap', after, happend, hbefore, hstart, hgap'⟩ := ih hbehind
      refine ⟨before, gap', after, ?_, ?_, hstart, hgap'⟩
      · rw [← happend]
        simp
      · rw [hbefore, List.getLast?_cons]
        cases us.getLast? with
        | none => simp [stop, Nat.add_assoc]
        | some v => rfl

end Laid

/-! ### Scans -/

/-- What the tokens of a source are, and where. -/
structure Exact (source : String) (tokens : List Token) : Prop where
  /-- There is one token for the end, at the end of the source. -/
  ends : ∃ ts line, tokens = ts ++ [⟨.endOfInput, source.utf8ByteSize, "", line⟩] ∧
    ∀ t ∈ ts, t.kind ≠ .endOfInput
  /-- Every other token is the longest match at the place where it stands. -/
  stands : ∀ t ∈ tokens, t.kind ≠ .endOfInput → ∃ before after : String,
    source = before ++ t.text ++ after ∧ before.utf8ByteSize = t.start ∧
      IsLongest t.kind t.text.toList after.toList
  /-- It covers at least one byte. -/
  nonempty : ∀ t ∈ tokens, t.kind ≠ .endOfInput → t.start < t.stop
  /-- The tokens do not overlap, and stand in order. -/
  ascending : tokens.Pairwise fun a b => a.stop ≤ b.start
  /-- White space and comments fill the gap in front of each token, up to the token before it
      or to the start of the source. -/
  between : ∀ us t vs, tokens = us ++ t :: vs → ∃ before gap after : String,
    source = before ++ gap ++ after ∧ before.utf8ByteSize = (us.getLast?.map stop).getD 0 ∧
      (before ++ gap).utf8ByteSize = t.start ∧ gap.toList ∈ gaps
  /-- A keyword or a symbol is given exactly to its text. -/
  keywords : ∀ (kind : Kind) (text : String), kind.text? = some text → ∀ t ∈ tokens,
    (t.kind = kind ↔ t.text = text)

/-- The kind of a longest match is that of a keyword or a symbol if the text is. -/
theorem IsLongest.kind_eq_iff {kind kind' : Kind} {w rest : List Char} {text : String}
    (h : IsLongest kind w rest) (htext : kind'.text? = some text) :
    kind = kind' ↔ w = text.toList := by
  constructor
  · rintro rfl
    exact (mem_of_text? htext).1 h.matched
  · intro hw
    exact (h.preferred kind' ((mem_of_text? htext).2 hw) (by simp [htext])).symm

/-- The end of a source has no text, and so no text of a keyword or a symbol. -/
theorem kind_eq_iff_text {source : String} {t : Token} (ht : t ∈ (scan source).tokens)
    (hlongest : t.kind ≠ .endOfInput → ∃ rest, IsLongest t.kind t.text.toList rest) {kind : Kind}
    {text : String} (htext : kind.text? = some text) : t.kind = kind ↔ t.text = text := by
  by_cases hkind : t.kind = .endOfInput
  · have hempty : t.text = "" := by
      have hword := word_endOfInput _ _ _ t ht hkind
      exact congrArg Word.text hword
    rw [hkind, hempty]
    constructor
    · rintro rfl
      cases htext
    · rintro rfl
      exact absurd rfl (ne_nil_of_mem ((mem_of_text? htext).2 rfl))
  · obtain ⟨rest, hlongest⟩ := hlongest hkind
    rw [hlongest.kind_eq_iff htext]
    exact ⟨fun h => String.toList_injective h, fun h => by rw [h]⟩

theorem exact_of_scan {source : String} (h : (scan source).failure = none) :
    Exact source (scan source).tokens := by
  have hlaid : Laid [] source.toList (scan source).tokens :=
    laid_of_scanFrom source.toList 0 1 [] rfl h
  have hstands : ∀ t ∈ (scan source).tokens, t.kind ≠ .endOfInput → ∃ before after : String,
      source = before ++ t.text ++ after ∧ before.utf8ByteSize = t.start ∧
        IsLongest t.kind t.text.toList after.toList := by
    intro t ht hkind
    obtain ⟨before, after, happend, hstart, hlongest⟩ := hlaid.stands t ht hkind
    refine ⟨String.ofList before, String.ofList after, ?_, hstart, by simpa using hlongest⟩
    apply String.toList_injective
    simpa using happend
  obtain ⟨us, line, hends, hus⟩ := hlaid.ends
  rw [List.nil_append, String.ofList_toList] at hends
  constructor
  case ends => exact ⟨us, line, hends, hus⟩
  case stands => exact hstands
  case nonempty =>
    intro t ht hkind
    obtain ⟨_, _, -, -, hlongest⟩ := hstands t ht hkind
    have hpos : t.text.utf8ByteSize ≠ 0 := by
      intro hzero
      rw [String.utf8ByteSize_eq_zero_iff] at hzero
      exact ne_nil_of_mem hlongest.matched (by rw [hzero]; rfl)
    show t.start < t.start + t.text.utf8ByteSize
    omega
  case ascending => exact hlaid.ascending
  case between =>
    intro us t vs hts
    obtain ⟨before, gap, after, happend, hbefore, hstart, hgap⟩ := hlaid.between hts
    refine ⟨String.ofList before, String.ofList gap, String.ofList after, ?_, hbefore, ?_, ?_⟩
    · apply String.toList_injective
      simpa using happend
    · simpa using hstart
    · simpa using hgap
  case keywords =>
    intro kind text htext t ht
    refine kind_eq_iff_text ht (fun hkind => ?_) htext
    obtain ⟨_, after, -, -, hlongest⟩ := hstands t ht hkind
    exact ⟨after.toList, hlongest⟩

/-- **Main theorem.** A source has tokens if and only if it is cut up to its end by taking the
    longest match again and again. Then the tokens are the pieces that are no trivia, each in its
    place. Otherwise the scan fails with the first character behind the pieces, where no rule
    matches. -/
theorem scan_isExact (source : String) :
    ((scan source).failure = none ↔ ∃ pieces, Cut source.toList pieces []) ∧
    (∀ pieces, Cut source.toList pieces [] → Exact source (scan source).tokens ∧
      (scan source).tokens.map word =
        pieces.filter (!·.kind.isTrivia) ++ [⟨.endOfInput, ""⟩]) ∧
    ∀ c, (scan source).failure.map Unrecognized.character = some c ↔
      ∃ pieces rest, Cut source.toList pieces (c :: rest) ∧ Unmatched (c :: rest) := by
  obtain ⟨pieces, back, hcut, hback, hfailure, htokens⟩ := cut_of_scanFrom source.toList 0 1
  have hfailure : (scan source).failure.map Unrecognized.character = back.head? := hfailure
  have hnone : (scan source).failure = none ↔ back = [] := by
    rw [← List.head?_eq_none_iff, ← hfailure, Option.map_eq_none_iff]
  refine ⟨?_, fun pieces' hcut' => ?_, fun c => ?_⟩
  · rw [hnone]
    constructor
    · rintro rfl
      exact ⟨pieces, hcut⟩
    · rintro ⟨pieces', hcut'⟩
      exact (hcut.unique hcut' hback unmatched_nil).2
  · obtain ⟨rfl, rfl⟩ := hcut.unique hcut' hback unmatched_nil
    exact ⟨exact_of_scan (hnone.2 rfl), htokens rfl⟩
  · rw [hfailure, List.head?_eq_some_iff]
    constructor
    · rintro ⟨rest, rfl⟩
      exact ⟨pieces, rest, hcut, hback⟩
    · rintro ⟨pieces', rest, hcut', hback'⟩
      exact ⟨rest, (hcut.unique hcut' hback hback').2⟩

end ByteBricks.Token
