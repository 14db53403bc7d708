/-
Keys and values are scanned as tokens.

A line that was written is a key, or a key and a value.  The scanner takes two rounds for the
key, since it is known as one only at the colon, and one for the value.  Between them a line end
and the indentation of the next line are passed over.
-/
import StepStubs.Proofs.Yaml.Scalar
import StepStubs.Yaml.Scanner

namespace StepStubs
namespace Yaml
namespace Scanner

variable {keyAllowed : Bool} {mark : Mark} {rest : Text} {tokens : List Token}
  {columns : List Nat}

/-- The scanner outside flow collections, when no key is going on and no anchor was given. -/
def between (mark : Mark) (rest : Text) (tokens : List Token) (columns : List Nat)
    (keyAllowed : Bool) : Scanner :=
  ⟨⟨mark, rest⟩, tokens, columns, keyAllowed, none, [], []⟩

/-! ## Between tokens -/

theorem skipBlank_of_startsToken (h : StartsToken rest) :
    skipBlank false keyAllowed false mark rest = (keyAllowed, ⟨mark, rest⟩) := by
  cases rest with
  | nil => rw [skipBlank]
  | cons c rest =>
    obtain ⟨hgap, hbreak, hcomment, horder⟩ := h c rfl
    obtain ⟨hspace, htab⟩ := ne_of_isGap hgap
    unfold skipBlank
    simp only [hbreak, hcomment, horder, hspace, htab, Bool.false_eq_true, false_and, or_self,
      if_false]

theorem skipBlank_indentation (k : Nat) :
    skipBlank false keyAllowed false mark (indentation k ++ rest) =
      skipBlank false keyAllowed false ((indentation k).foldl Mark.after mark) rest := by
  induction k generalizing mark with
  | zero => rfl
  | succ k ih => exact ih

theorem toToken_of_skipBlank {s : Scanner} {cursor : Cursor} (hflow : s.inFlow = false)
    (h : skipBlank false s.keyAllowed false s.cursor.mark s.cursor.rest = (keyAllowed, cursor)) :
    s.toToken = { s with keyAllowed := keyAllowed, cursor := cursor } := by
  rw [toToken, hflow, h]

/-- The next token of the scanner is the first of `rest` and stands at a column.  It may be a
key. -/
def AtToken (s : Scanner) (column : Nat) (rest : Text) (tokens : List Token)
    (columns : List Nat) : Prop :=
  ∃ mark : Mark, mark.column = column ∧ s.toToken = between mark rest tokens columns true

theorem atToken_between {column : Nat} (hmark : mark.column = column) (h : StartsToken rest) :
    AtToken (between mark rest tokens columns true) column rest tokens columns :=
  ⟨mark, hmark, toToken_of_skipBlank rfl (skipBlank_of_startsToken h)⟩

theorem atToken_start (h : StartsToken rest) : AtToken (start rest) 0 rest [] [] :=
  ⟨⟨0, 0, 0⟩, rfl, toToken_of_skipBlank rfl (skipBlank_of_startsToken h)⟩

/-- After a line end the scanner is at the first token of the next line. -/
theorem atToken_line (mark : Mark) (tokens : List Token) (columns : List Nat) (keyAllowed : Bool)
    (k : Nat) (h : StartsToken rest) :
    AtToken (between mark ('\n' :: (indentation k ++ rest)) tokens columns keyAllowed) k rest
      tokens columns := by
  refine ⟨(indentation k).foldl Mark.after (mark.after '\n'), ?_, ?_⟩
  · rw [column_indentation, column_after_of_isBreak mark (by decide), Nat.zero_add]
  refine toToken_of_skipBlank rfl ?_
  show skipBlank false keyAllowed false mark ('\n' :: (indentation k ++ rest)) = _
  rw [skipBlank, if_pos (by decide), skipBlank_indentation, skipBlank_of_startsToken h,
    Bool.not_false, Bool.or_true]

/-! ## The first character of a token -/

/-- A character that starts no other token starts a plain scalar. -/
theorem token_plain {s : Scanner} {c : Char} (hflow : s.inFlow = false)
    (hindicator : isIndicator c = false) (htab : c ≠ '\t')
    (hgap : c = '-' ∨ c = '?' ∨ c = ':' → atGap rest = false)
    (hmarker : s.column = 0 → atMarker (c :: rest) = false) :
    s.token c rest = s.plainScalar := by
  have hne : c ≠ ',' ∧ c ≠ '[' ∧ c ≠ ']' ∧ c ≠ '\x7b' ∧ c ≠ '\x7d' ∧ c ≠ '#' ∧ c ≠ '&' ∧
      c ≠ '*' ∧ c ≠ '!' ∧ c ≠ '|' ∧ c ≠ '>' ∧ c ≠ '\'' ∧ c ≠ '"' ∧ c ≠ '%' ∧ c ≠ '@' ∧
      c ≠ '\x60' := by
    simpa [isIndicator] using hindicator
  have hstart : startsPlain s.inFlow c rest = true := by
    unfold startsPlain
    split
    · next hdash =>
      have hrest := hgap (.inl hdash)
      cases rest with
      | nil => rfl
      | cons d rest =>
        have hd := (Bool.or_eq_false_iff.mp hrest).1
        simp only [List.head?_cons, Option.map_some, Option.getD_some, hd, Bool.not_false]
    · split
      · next hcolon =>
        rw [hflow, hgap (.inr hcolon)]
        rfl
      · simp [hne, htab]
  -- Each test that comes before that for a plain scalar fails on `c`.
  have hmarker' : ¬ (s.column = 0 ∧ atMarker (c :: rest) = true) :=
    fun h => Bool.false_ne_true ((hmarker h.1).symm.trans h.2)
  have hdash : ¬ (c = '-' ∧ atGap rest = true) :=
    fun h => Bool.false_ne_true ((hgap (.inl h.1)).symm.trans h.2)
  have hquestion : ¬ (c = '?' ∧ (s.inFlow || atGap rest) = true) := by
    rintro ⟨hc, h⟩
    rw [hflow, hgap (.inr (.inl hc))] at h
    exact nomatch h
  have hcolon : ¬ (c = ':' ∧ (s.inFlow || atGap rest) = true) := by
    rintro ⟨hc, h⟩
    rw [hflow, hgap (.inr (.inr hc))] at h
    exact nomatch h
  simp only [token, hne, hmarker', hdash, hquestion, hcolon, hstart, and_false, false_and,
    if_false, if_true]

theorem token_of_allowsPlain {s : Scanner} {c : Char} {t after : Text} (hflow : s.inFlow = false)
    (h : allowsPlain (c :: t) = true)
    (hmarker : s.column = 0 → atMarker (c :: (t ++ after)) = false) :
    s.token c (t ++ after) = s.plainScalar := by
  simp only [allowsPlain, Bool.and_eq_true, Bool.not_eq_true'] at h
  obtain ⟨⟨⟨⟨⟨hprintable, -⟩, -⟩, -⟩, hindicator⟩, -⟩ := h
  simp only [startsWithIndicator, Bool.or_eq_false_iff] at hindicator
  obtain ⟨-, hindicator, hgap⟩ := hindicator
  refine token_plain hflow hindicator ?_ ?_ hmarker
  · rintro rfl
    exact absurd (List.all_eq_true.mp hprintable '\t' List.mem_cons_self) (by decide)
  · intro hc
    have ht : atGap t = false := by
      rcases hc with rfl | rfl | rfl <;> simpa using hgap
    cases t with
    | nil => cases ht
    | cons d t => exact ht

theorem startsToken_of_allowsPlain {c : Char} {t : Text} (h : allowsPlain (c :: t) = true)
    (after : Text) : StartsToken (c :: after) := by
  simp only [allowsPlain, Bool.and_eq_true, Bool.not_eq_true'] at h
  obtain ⟨⟨⟨⟨⟨hprintable, hbreak⟩, hspace⟩, -⟩, hindicator⟩, -⟩ := h
  have hc := List.all_eq_true.mp hprintable c List.mem_cons_self
  have hgap := isGap_of_isPrintable hc (of_decide_eq_false hspace)
  rintro d ⟨⟩
  refine ⟨hgap, (Bool.or_eq_false_iff.mp hbreak).1, ?_, ?_⟩
  · rintro rfl
    simp [startsWithIndicator, isIndicator] at hindicator
  · rintro rfl
    exact absurd hc (by decide)

/-! ## One round -/

theorem closeDeeper_of_le {s : Scanner} {column : Nat} (hflow : s.inFlow = false)
    (h : ∀ c ∈ s.columns.head?, c ≤ column) : s.closeDeeper column = s := by
  have hclosed : (s.columns.takeWhile fun c => decide (column < c)) = [] := by
    cases hcolumns : s.columns with
    | nil => rfl
    | cons c columns =>
      rw [hcolumns] at h
      exact List.takeWhile_cons_of_neg (by simpa using h c rfl)
  rw [closeDeeper, hflow, hclosed]
  rfl

theorem scanWithin_token {s next t : Scanner} {c : Char} {rest : Text} (rounds : Nat)
    (hnext : s.toToken = next) (hrest : next.cursor.rest = c :: rest)
    (ht : (next.closeDeeper next.column).token c rest = .ok t) :
    scanWithin (rounds + 1) s = scanWithin rounds t := by
  rw [scanWithin]
  simp only [hnext, hrest, ht]
  rfl

/-! ## Keys -/

variable {column k : Nat}

/-- No collection that stays open at a column is deeper than the column. -/
theorem head_columns_closeDeeper {s : Scanner} (hflow : s.inFlow = false) (column : Nat) :
    ∀ c ∈ (s.closeDeeper column).columns.head?, c ≤ column := by
  rw [closeDeeper, hflow]
  show ∀ c ∈ (s.columns.drop (s.columns.takeWhile fun c => decide (column < c)).length).head?,
    c ≤ column
  induction s.columns with
  | nil => exact fun c hc => nomatch hc
  | cons d columns ih =>
    by_cases hd : column < d
    · rwa [List.takeWhile_cons_of_pos (by simpa using hd), List.length_cons, List.drop_succ_cons]
    · rw [List.takeWhile_cons_of_neg (by simpa using hd), List.length_nil, List.drop_zero]
      rintro c ⟨⟩
      exact Nat.not_lt.mp hd

theorem openAt_of_isDeeper {s : Scanner} (hflow : s.inFlow = false)
    (h : s.isDeeper column = true) (k : Token) :
    s.openAt column k = ({ s with columns := column :: s.columns }, [k]) := by
  rw [openAt, hflow, h]
  rfl

theorem openAt_of_not_isDeeper {s : Scanner} (h : s.isDeeper column = false) (k : Token) :
    s.openAt column k = (s, []) := by
  rw [openAt, h, Bool.and_false]
  rfl

/-- The colon puts the tokens of a key where the key started. -/
theorem value_of_keyStart {s : Scanner} {k : KeyStart} {scalar : Token} {columns' : List Nat}
    {opening : List Token}
    (hs : s = ⟨⟨mark, ':' :: rest⟩, scalar :: tokens, columns, false, some k, [], []⟩)
    (hposition : k.position = tokens.length) (hline : k.mark.line = mark.line)
    (hindex : mark.index ≤ k.mark.index + maxKeyLength)
    (hopen : s.openAt k.mark.column .blockMapping = ({ s with columns := columns' }, opening)) :
    s.value = .ok (between (mark.after ':') rest (.value :: scalar :: .key :: (opening ++ tokens))
      columns' false) := by
  -- The key is still good: its colon is on its line and near enough.
  have hfresh : s.isStale k = false := by
    subst hs
    simp only [isStale, Bool.or_eq_false_iff, decide_eq_false_iff_not]
    exact ⟨Nat.not_lt.mpr (Nat.le_of_eq hline.symm), Nat.not_lt.mpr hindex⟩
  have hending : s.endingKey = .ok (some k) := by
    have hstart : s.keyStart = some k := by rw [hs]
    simp only [endingKey, hstart, hfresh, Bool.not_false, if_true]
  have hlater : (scalar :: tokens).length - k.position = 1 := by
    rw [hposition, List.length_cons]
    omega
  rw [value, hending]
  show Except.ok (skip { (insert (s.openAt k.mark.column .blockMapping).1 k.position
    (.key :: (s.openAt k.mark.column .blockMapping).2)).push .value with
      keyAllowed := false, keyStart := none } 1) = _
  rw [hopen, hs]
  show Except.ok (between _ _ (.value :: ((scalar :: tokens).take _ ++
    (.key :: opening ++ (scalar :: tokens).drop _))) _ _) = _
  rw [hlater]
  rfl

/-- The tokens up to a key at a column, and the collections that are open there, from those before
its line. -/
def keyed (column : Nat) (tokens : List Token) (columns : List Nat) : List Token × List Nat :=
  let closed := (between ⟨0, 0, 0⟩ [] tokens columns true).closeDeeper column
  if closed.isDeeper column then
    (.key :: .blockMapping :: closed.tokens, column :: closed.columns)
  else (.key :: closed.tokens, closed.columns)

/-- The scanner between the name of a key, which starts at `mark`, and its colon. -/
def afterName (mark : Mark) (name rest : Text) (tokens : List Token) (columns : List Nat) :
    Scanner :=
  ⟨⟨⟨mark.line, mark.column + name.length, mark.index + name.length⟩, ':' :: rest⟩,
    .scalar true name :: tokens, columns, false,
    some ⟨columns.head? = some mark.column, tokens.length, mark⟩, [], []⟩

variable {name : Text}

theorem plainScalar_name (tokens : List Token) (columns : List Nat)
    (hname : allowsPlain name = true) (hne : name ≠ [])
    (hmarker : mark.column = 0 → atMarker (name ++ ':' :: rest) = false)
    (hrest : atGap rest = true) :
    (between mark (name ++ ':' :: rest) tokens columns true).plainScalar =
      .ok (afterName mark name rest tokens columns) := by
  show (readPlain false (between mark (name ++ ':' :: rest) tokens columns true).isDeeper .empty []
    mark (name ++ ':' :: rest) >>= _) = _
  rw [readPlain_key hname hne hrest hmarker]
  rfl

/-- A key and its colon are scanned in two rounds. -/
theorem scanWithin_key {s : Scanner} (rounds : Nat)
    (hs : s.toToken = between mark (name ++ ':' :: rest) tokens columns true)
    (hname : allowsPlain name = true) (hne : name ≠ []) (hlength : name.length ≤ maxKeyLength)
    (hmarker : mark.column = 0 → atMarker (name ++ ':' :: rest) = false)
    (hrest : atGap rest = true) :
    ∃ mark', mark.column < mark'.column ∧
      scanWithin (rounds + 2) s =
        scanWithin rounds (between mark' rest
          (.value :: .scalar true name :: (keyed mark.column tokens columns).1)
          (keyed mark.column tokens columns).2 false) := by
  let closed := (between mark (name ++ ':' :: rest) tokens columns true).closeDeeper mark.column
  let named := afterName mark name rest closed.tokens closed.columns
  -- The first round takes the name.
  have hfirst : scanWithin (rounds + 2) s = scanWithin (rounds + 1) named := by
    have hscalar : closed.plainScalar = .ok named := plainScalar_name _ _ hname hne hmarker hrest
    obtain ⟨c, t, rfl⟩ := List.exists_cons_of_ne_nil hne
    have htoken : closed.token c (t ++ ':' :: rest) = closed.plainScalar :=
      token_of_allowsPlain rfl hname hmarker
    exact scanWithin_token (rounds + 1) hs rfl (htoken.trans hscalar)
  -- The second takes the colon, which stands too far right to close anything.
  have hcolon : named.toToken = named :=
    toToken_of_skipBlank rfl (skipBlank_of_startsToken (by rintro d ⟨⟩; decide))
  have hclose : named.closeDeeper named.column = named := closeDeeper_of_le rfl fun d hd =>
    Nat.le_trans (head_columns_closeDeeper (s := between mark (name ++ ':' :: rest) tokens columns
      true) rfl mark.column d hd) (Nat.le_add_right _ _)
  have hvalue : named.token ':' rest = named.value := by
    have hcolumn : named.column ≠ 0 := by
      have hpos := List.length_pos_iff.mpr hne
      exact Nat.ne_of_gt (Nat.add_pos_right _ hpos)
    simp [token, hcolumn, hrest]
  have hindex : mark.index + name.length ≤ mark.index + maxKeyLength :=
    Nat.add_le_add_left hlength _
  refine ⟨named.cursor.mark.after ':', ?_, hfirst.trans (scanWithin_token rounds hcolon rfl ?_)⟩
  · rw [column_after _ (by decide)]
    exact Nat.lt_succ_of_le (Nat.le_add_right _ _)
  · rw [hclose, hvalue]
    cases hdeeper : named.isDeeper mark.column with
    | true =>
      have hkeyed : keyed mark.column tokens columns =
          (.key :: .blockMapping :: closed.tokens, mark.column :: closed.columns) := if_pos hdeeper
      rw [hkeyed]
      exact value_of_keyStart (s := named) rfl rfl rfl hindex (openAt_of_isDeeper rfl hdeeper _)
    | false =>
      have hkeyed : keyed mark.column tokens columns = (.key :: closed.tokens, closed.columns) :=
        if_neg (Bool.eq_false_iff.mp hdeeper)
      have hscanned : named.value = .ok (between (named.cursor.mark.after ':') rest
          (.value :: .scalar true name :: .key :: ([] ++ closed.tokens)) closed.columns false) :=
        value_of_keyStart (s := named) rfl rfl rfl hindex (openAt_of_not_isDeeper hdeeper _)
      rwa [hkeyed]

/-! ## Values -/

/-- A space after a colon is passed over, and the value after it is scanned. -/
theorem scanWithin_space {c : Char} {body : Text} {t : Scanner} (rounds : Nat)
    (hcolumn : column < mark.column) (hstart : StartsToken (c :: body))
    (ht : (between (mark.after ' ') (c :: body) tokens (column :: columns) false).token c body =
      .ok t) :
    scanWithin (rounds + 1) (between mark (' ' :: c :: body) tokens (column :: columns) false) =
      scanWithin rounds t := by
  have hnext : (between mark (' ' :: c :: body) tokens (column :: columns) false).toToken =
      between (mark.after ' ') (c :: body) tokens (column :: columns) false :=
    toToken_of_skipBlank rfl (skipBlank_of_startsToken hstart)
  refine scanWithin_token rounds hnext rfl ?_
  rw [closeDeeper_of_le rfl, ht]
  intro d hd
  obtain rfl : column = d := Option.some.inj hd
  show column ≤ (mark.after ' ').column
  rw [column_after mark (by decide)]
  omega

theorem scanWithin_plain {v : Text} (rounds : Nat) (hne : v ≠ []) (h : allowsPlain v = true)
    (hcolumn : column < mark.column) (hk : k ≤ column) (hrest : StartsToken rest) :
    ∃ s, AtToken s k rest (.scalar true v :: tokens) (column :: columns) ∧
      scanWithin (rounds + 1) (between mark (' ' :: (v ++ '\n' :: (indentation k ++ rest))) tokens
          (column :: columns) false) = scanWithin rounds s := by
  let s := between (mark.after ' ') (v ++ '\n' :: (indentation k ++ rest)) tokens
    (column :: columns) false
  have hafter : 0 < (mark.after ' ').column := by
    rw [column_after mark (by decide)]
    omega
  have hdeeper : s.isDeeper k = false := decide_eq_false (Nat.not_lt.mpr hk)
  obtain ⟨mark', hmark, hread⟩ := readPlain_value h hafter hdeeper hrest
  refine ⟨_, atToken_between hmark hrest, ?_⟩
  have hscan : s.plainScalar =
      .ok (between mark' rest (.scalar true v :: tokens) (column :: columns) true) := by
    show (readPlain false s.isDeeper .empty [] (mark.after ' ')
      (v ++ '\n' :: (indentation k ++ rest)) >>= _) = _
    rw [hread]
    rfl
  cases v with
  | nil => exact absurd rfl hne
  | cons c t =>
    refine scanWithin_space rounds hcolumn (startsToken_of_allowsPlain h _) ?_
    refine (token_of_allowsPlain rfl h ?_).trans hscan
    exact fun hzero => absurd hzero (Nat.ne_of_gt hafter)

theorem scanWithin_quoted {q : Quote} {v body : Text} (rounds : Nat)
    (h : ∀ mark : Mark, 0 < mark.column → ∃ mark', readQuoted q (.text .empty) [] mark body =
      .ok (v, ⟨mark', '\n' :: (indentation k ++ rest)⟩))
    (hcolumn : column < mark.column) (hrest : StartsToken rest) :
    ∃ s, AtToken s k rest (.scalar false v :: tokens) (column :: columns) ∧
      scanWithin (rounds + 1) (between mark (' ' :: q.char :: body) tokens (column :: columns)
          false) = scanWithin rounds s := by
  have hafter : 0 < (mark.after ' ').column := column_after_pos mark (by decide)
  obtain ⟨mark', hread⟩ := h ((mark.after ' ').after q.char)
    (column_after_pos _ (by cases q <;> decide))
  refine ⟨_, atToken_line mark' (.scalar false v :: tokens) (column :: columns) false k hrest, ?_⟩
  refine scanWithin_space rounds hcolumn ?_ ?_
  · rintro c ⟨⟩
    cases q <;> decide
  · have htoken : ∀ s : Scanner, s.column ≠ 0 → s.token q.char body =
        s.property (readQuotedToken q) := by
      intro s hs
      cases q <;> simp [token, hs, Quote.char]
    refine (htoken _ ?_).trans ?_
    · exact Nat.ne_of_gt hafter
    show (readQuoted q (.text .empty) [] ((mark.after ' ').after q.char) body >>= _) >>= _ = _
    rw [hread]
    rfl

theorem scanWithin_literal {v : Text} (rounds : Nat) (hne : v ≠ [])
    (hprintable : ∀ c ∈ v, isPrintable c = true) (hcolumn : column < mark.column)
    (hk : k ≤ column) (hrest : StartsToken rest) :
    ∃ s, AtToken s k rest (.scalar false v :: tokens) (column :: columns) ∧
      scanWithin (rounds + 1) (between mark (' ' :: '|' :: (indentationMark v ++ chompingMark v ++
          '\n' :: (indentLines (column + 2) List.singleton true v ++
            (closingBreak v ++ (indentation k ++ rest))))) tokens (column :: columns) false) =
        scanWithin rounds s := by
  have hafter : 0 < (mark.after ' ').column := column_after_pos mark (by decide)
  generalize hbody : indentationMark v ++ chompingMark v ++
    '\n' :: (indentLines (column + 2) List.singleton true v ++
      (closingBreak v ++ (indentation k ++ rest))) = body
  obtain ⟨mark', hmark, hread⟩ :=
    readBlockScalar_literalBlock ((mark.after ' ').after '|') hne hprintable hk hrest
  rw [hbody] at hread
  refine ⟨_, atToken_between hmark hrest, ?_⟩
  refine scanWithin_space rounds hcolumn ?_ ?_
  · rintro c ⟨⟩
    decide
  · have htoken : ∀ s : Scanner, s.column ≠ 0 → s.inFlow = false → s.token '|' body =
        s.blockScalar true := by
      intro s hs hflow
      simp [token, hs, hflow]
    refine (htoken _ ?_ rfl).trans ?_
    · exact Nat.ne_of_gt hafter
    show (readBlockScalar true (some column) ⟨(mark.after ' ').after '|', body⟩ >>= _) = _
    rw [hread]
    rfl

/-- A value is scanned as the text that was written, in any style. -/
theorem scanWithin_value (v : Text) (rounds : Nat) (hcolumn : column < mark.column)
    (hk : k ≤ column) (hrest : StartsToken rest) :
    ∃ s, AtToken s k rest (.scalar (decide (Style.of v = .plain)) v :: tokens)
        (column :: columns) ∧
      scanWithin (rounds + 1) (between mark
          (' ' :: (writeScalar (column + 2) v ++ (indentation k ++ rest))) tokens
          (column :: columns) false) =
        scanWithin rounds s := by
  cases hstyle : Style.of v with
  | plain =>
    obtain ⟨hne, hplain⟩ := of_style_plain hstyle
    rw [writeScalar_plain hstyle]
    exact scanWithin_plain rounds hne hplain hcolumn hk hrest
  | singleQuoted =>
    obtain ⟨hline, hquotes⟩ := of_style_singleQuoted hstyle
    simp only [allowsSingleQuotes, Bool.and_eq_true, Bool.not_eq_true'] at hquotes
    obtain ⟨⟨hprintable, hbreakSpace⟩, hspaceBreak⟩ := hquotes
    have hchars : ∀ c ∈ v, isPrintable c = true ∧ c ≠ '\n' := by
      intro c hc
      refine ⟨List.all_eq_true.mp hprintable c hc, ?_⟩
      rintro rfl
      exact absurd (List.contains_iff_mem.mpr hc) (Bool.eq_false_iff.mp hline)
    rw [writeScalar_singleQuoted hstyle]
    exact scanWithin_quoted (q := .single) rounds (fun mark hmark =>
      readQuoted_indentLines (Nat.succ_pos _) v [] _ hchars trivial hbreakSpace hspaceBreak
        (fun _ => hmark) (by simp)) hcolumn hrest
  | doubleQuoted =>
    rw [writeScalar_doubleQuoted hstyle]
    exact scanWithin_quoted (q := .double) rounds
      (fun mark hmark => readQuoted_flatMap_escapeChar v [] [] _ hmark) hcolumn hrest
  | literal =>
    obtain ⟨hne, hprintable⟩ := of_style_literal hstyle
    rw [writeScalar_literal hstyle]
    exact scanWithin_literal rounds hne hprintable hcolumn hk hrest

/-! ## The end of the text -/

theorem scanWithin_end {s : Scanner} (rounds : Nat)
    (hs : s.toToken = between mark [] tokens columns keyAllowed) :
    scanWithin (rounds + 1) s = .ok (columns.map (fun _ => Token.blockEnd) ++ tokens).reverse := by
  have hrest : s.toToken.cursor.rest = [] := by rw [hs]; rfl
  rw [scanWithin]
  simp only [hrest]
  rw [hs]
  rfl

/-- Collections are closed at a column and then altogether, as if at once. -/
theorem closeAll_closeDeeper (mark : Mark) (rest : Text) (tokens : List Token)
    (columns : List Nat) (column : Nat) :
    ((between mark rest tokens columns keyAllowed).closeDeeper column).closeAll =
      between mark rest (columns.map (fun _ => .blockEnd) ++ tokens) [] keyAllowed := by
  show between mark rest
    ((columns.drop (columns.takeWhile fun c => column < c).length).map _ ++
      ((columns.takeWhile fun c => column < c).map _ ++ tokens)) [] keyAllowed = _
  rw [← List.append_assoc, ← List.map_append]
  congr 2
  have hlength := (List.takeWhile_prefix fun c => decide (column < c) : _ <+: columns).length_le
  simp only [List.map_const', List.length_append, List.length_drop]
  congr 1
  omega

/-- The marker of the end closes them, too. -/
theorem scanWithin_documentEnd {s : Scanner} (rounds : Nat)
    (hs : s.toToken = between mark "...\n".toList tokens columns true) (hcolumn : mark.column = 0) :
    scanWithin (rounds + 2) s =
      .ok (.documentEnd :: (columns.map (fun _ => Token.blockEnd) ++ tokens)).reverse := by
  let closed := (between mark "...\n".toList tokens columns true).closeDeeper mark.column
  have htoken : closed.token '.' "..\n".toList = .ok (between (("...".toList).foldl Mark.after mark)
      ['\n'] (.documentEnd :: (columns.map (fun _ => Token.blockEnd) ++ tokens)) [] false) := by
    have hmarker : closed.token '.' "..\n".toList = closed.marker .documentEnd := by
      have hzero : closed.column = 0 := hcolumn
      have hat : atMarker ['.', '.', '.', '\n'] = true := by decide
      simp [token, hzero, hat]
    rw [hmarker, marker, closeAll_closeDeeper]
    rfl
  obtain ⟨mark', -, hline⟩ := atToken_line (("...".toList).foldl Mark.after mark)
    (.documentEnd :: (columns.map (fun _ => Token.blockEnd) ++ tokens)) [] false 0
    (show StartsToken [] from nofun)
  exact (scanWithin_token (rounds + 1) hs rfl htoken).trans (scanWithin_end rounds hline)

end Scanner
end Yaml
end StepStubs
