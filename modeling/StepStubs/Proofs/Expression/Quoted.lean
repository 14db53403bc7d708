/-
What is inside a quoted literal does not matter.

The first pass puts a slot in the place of a literal, whatever is inside (`quotes_literal`), and what
comes before it, trimming and dropping private-use characters, changes nothing outside of the
literals but what it would change without them.  So a text compiles like the text whose literals
were emptied (`compile_emptyLiterals`), and texts that differ inside their literals only compile to
the same pattern.
-/
import StepStubs.Proofs.Expression.Instance
import StepStubs.Proofs.Text.Literal

namespace StepStubs
namespace Expression

open Text (emptyLiterals segments segmentsFrom joinSegments replaceSpans)

/-! ## The first pass, literal by literal -/

section Quotes

variable {p : Piece} {d : Draft}

theorem quotes_of_kept (h : quotedSpan none (p :: d) = none) :
    Pass.quotes.apply (p :: d) = p :: Pass.quotes.apply d := by
  rw [Pass.apply, replaceSpans, segments, Text.segmentsFrom_kept h,
    Text.segmentsFrom_eq_segments fun _ _ _ => rfl]
  rfl

theorem quotes_cons_of_ne (hp : p ≠ .char '"') :
    Pass.quotes.apply (p :: d) = p :: Pass.quotes.apply d := by
  refine quotes_of_kept ?_
  rw [quotedSpan]
  exact fun rest heq => hp (List.cons.inj heq).1

theorem quotes_of_not_mem (h : .char '"' ∉ d) : Pass.quotes.apply d = d := by
  induction d with
  | nil => rfl
  | cons p d ih =>
    rw [quotes_cons_of_ne (List.ne_of_not_mem_cons h).symm, ih (List.not_mem_of_not_mem_cons h)]

theorem quotes_unpaired (h : .char '"' ∉ d) :
    Pass.quotes.apply (.char '"' :: d) = .char '"' :: d := by
  have hnone : quotedSpan none (.char '"' :: d) = none := by
    rw [quotedSpan, if_neg fun hcontains => h (List.contains_iff_mem.mp hcontains)]
  rw [quotes_of_kept hnone, quotes_of_not_mem h]

theorem quotes_literal {body : Draft} (h : .char '"' ∉ body) (d : Draft) :
    Pass.quotes.apply (.char '"' :: body ++ .char '"' :: d) =
      .slot .string :: Pass.quotes.apply d := by
  have hbody : ∀ p ∈ body, decide (p ≠ Piece.char '"') = true := fun p hp =>
    decide_eq_true fun heq => h (heq ▸ hp)
  have hspan : quotedSpan none (.char '"' :: ((body ++ [.char '"']) ++ d)) =
      some (body ++ [Piece.char '"']).length := by
    rw [quotedSpan, if_pos (by simp), List.append_assoc, List.takeWhile_append_of_pos hbody,
      List.singleton_append, List.takeWhile_cons_of_neg (by simp), List.append_nil,
      List.length_append, List.length_singleton]
  have hlist : .char '"' :: body ++ .char '"' :: d = .char '"' :: ((body ++ [.char '"']) ++ d) := by
    rw [List.append_assoc, List.singleton_append, List.cons_append]
  rw [hlist, Pass.apply, replaceSpans, segments, Text.segmentsFrom_span hspan,
    Text.segmentsFrom_eq_segments fun _ _ _ => rfl]
  rfl

end Quotes

theorem mem_ofChars {c : Char} {t : Text} : .char c ∈ Draft.ofChars t ↔ c ∈ t := by
  simp [Draft.ofChars]

theorem ofChars_append (t u : Text) :
    Draft.ofChars (t ++ u) = Draft.ofChars t ++ Draft.ofChars u := List.map_append

theorem ofChars_cons (c : Char) (t : Text) : Draft.ofChars (c :: t) = .char c :: Draft.ofChars t :=
  rfl

theorem quotes_ofChars_char {c : Char} (hc : c ≠ '"') (t : Text) :
    Pass.quotes.apply (Draft.ofChars (c :: t)) = .char c :: Pass.quotes.apply (Draft.ofChars t) :=
  quotes_cons_of_ne fun heq => hc (Piece.char.inj heq)

theorem quotes_ofChars_of_not_mem {t : Text} (h : '"' ∉ t) :
    Pass.quotes.apply (Draft.ofChars t) = Draft.ofChars t :=
  quotes_of_not_mem fun hmem => h (mem_ofChars.mp hmem)

theorem quotes_ofChars_unpaired {t : Text} (h : '"' ∉ t) :
    Pass.quotes.apply (Draft.ofChars ('"' :: t)) = .char '"' :: Draft.ofChars t :=
  quotes_unpaired fun hmem => h (mem_ofChars.mp hmem)

theorem quotes_ofChars_literal {body : Text} (h : '"' ∉ body) (t : Text) :
    Pass.quotes.apply (Draft.ofChars ('"' :: body ++ '"' :: t)) =
      .slot .string :: Pass.quotes.apply (Draft.ofChars t) := by
  rw [List.cons_append, ofChars_cons, ofChars_append, ofChars_cons]
  exact quotes_literal (fun hmem => h (mem_ofChars.mp hmem)) _

/-- Outside of its literals a text can be cut anywhere. -/
theorem quotes_ofChars_append {t u : Text} (h : ¬ Text.InsideLiteral t u) :
    Pass.quotes.apply (Draft.ofChars (t ++ u)) =
      Pass.quotes.apply (Draft.ofChars t) ++ Pass.quotes.apply (Draft.ofChars u) := by
  induction t using Text.literalInduction with
  | nil => rfl
  | char c t hc ih =>
    have ht : ¬ Text.InsideLiteral t u := by
      rwa [Text.InsideLiteral, List.count_cons_of_ne hc] at h
    rw [List.cons_append, quotes_ofChars_char hc, ih ht, quotes_ofChars_char hc, List.cons_append]
  | unpaired t ht _ =>
    have hu : '"' ∉ u := fun hu => h ⟨by simp [List.count_eq_zero_of_not_mem ht], hu⟩
    have htu : '"' ∉ t ++ u := fun hmem => (List.mem_append.mp hmem).elim ht hu
    rw [List.cons_append, quotes_ofChars_unpaired htu, quotes_ofChars_unpaired ht,
      quotes_ofChars_of_not_mem hu, ofChars_append, List.cons_append]
  | literal body t hbody ih =>
    have ht : ¬ Text.InsideLiteral t u := by
      refine fun hinside => h ⟨?_, hinside.2⟩
      rw [List.count_append, List.count_cons_self, List.count_cons_self,
        List.count_eq_zero_of_not_mem hbody]
      have := hinside.1
      omega
    have hassoc : '"' :: body ++ '"' :: t ++ u = '"' :: body ++ '"' :: (t ++ u) := by simp
    rw [hassoc, quotes_ofChars_literal hbody, ih ht, quotes_ofChars_literal hbody, List.cons_append]

section Ends

variable {class? : Char → Bool}

/-- A slot in the place of a literal looks like a quote to those beside it. -/
theorem head?_quotes_ofChars (hclass : class? '"' = false) (t : Text) :
    (Pass.quotes.apply (Draft.ofChars t)).head?.map (Piece.satisfies class?) =
      t.head?.map class? := by
  induction t using Text.literalInduction with
  | nil => rfl
  | char c t hc _ => rw [quotes_ofChars_char hc]; rfl
  | unpaired t ht _ => rw [quotes_ofChars_unpaired ht]; rfl
  | literal body t hbody _ => rw [quotes_ofChars_literal hbody]; exact congrArg some hclass.symm

theorem getLast?_quotes_ofChars (hclass : class? '"' = false) (t : Text) :
    (Pass.quotes.apply (Draft.ofChars t)).getLast?.map (Piece.satisfies class?) =
      t.getLast?.map class? := by
  have hcons : ∀ {p : Piece} {c : Char} {d : Draft} {u : Text}, p.satisfies class? = class? c →
      d.getLast?.map (Piece.satisfies class?) = u.getLast?.map class? →
      (p :: d).getLast?.map (Piece.satisfies class?) = (c :: u).getLast?.map class? := by
    intro p c d u hp hd
    rw [List.getLast?_cons, List.getLast?_cons]
    cases hl : d.getLast? <;> cases hl' : u.getLast? <;> rw [hl, hl'] at hd
    · exact congrArg some hp
    · exact nomatch hd
    · exact nomatch hd
    · exact hd
  induction t using Text.literalInduction with
  | nil => rfl
  | char c t hc ih =>
    rw [quotes_ofChars_char hc]
    exact hcons rfl ih
  | unpaired t ht ih =>
    rw [quotes_ofChars_of_not_mem ht] at ih
    rw [quotes_ofChars_unpaired ht]
    exact hcons rfl ih
  | literal body t hbody ih =>
    have hlast : ('"' :: body ++ '"' :: t).getLast? = ('"' :: t).getLast? := by
      rw [List.getLast?_append, List.getLast?_cons, Option.some_or]
    rw [quotes_ofChars_literal hbody, hlast]
    exact hcons hclass.symm ih

theorem any_head?_quotes_ofChars (hclass : class? '"' = false) (t : Text) :
    (Pass.quotes.apply (Draft.ofChars t)).head?.any (Piece.satisfies class?) =
      t.head?.any class? := by
  have hmap := congrArg (Option.any id) (head?_quotes_ofChars hclass t)
  rwa [Option.any_map, Option.any_map] at hmap

theorem any_getLast?_quotes_ofChars (hclass : class? '"' = false) (t : Text) :
    (Pass.quotes.apply (Draft.ofChars t)).getLast?.any (Piece.satisfies class?) =
      t.getLast?.any class? := by
  have hmap := congrArg (Option.any id) (getLast?_quotes_ofChars hclass t)
  rwa [Option.any_map, Option.any_map] at hmap

end Ends

/-! ## Texts that differ inside their literals -/

/-- The characters of a text that compiling starts from. -/
def publicPart (t : Text) : Text := t.filter fun c => !isPrivate c

theorem ofText_eq_publicPart (t : Text) :
    Draft.ofText t = Draft.ofChars (publicPart (Text.trim t)) := rfl

theorem publicPart_cons {c : Char} (hc : isPrivate c = false) (t : Text) :
    publicPart (c :: t) = c :: publicPart t := List.filter_cons_of_pos (by rw [hc]; rfl)

theorem publicPart_cons_private {c : Char} (hc : isPrivate c = true) (t : Text) :
    publicPart (c :: t) = publicPart t := List.filter_cons_of_neg (by simp [hc])

theorem not_mem_publicPart {t : Text} (h : '"' ∉ t) : '"' ∉ publicPart t :=
  fun hmem => h (List.mem_filter.mp hmem).1

theorem publicPart_literal (body t : Text) :
    publicPart ('"' :: body ++ '"' :: t) = '"' :: publicPart body ++ '"' :: publicPart t := by
  rw [publicPart, List.filter_append]
  rfl

/-- The first pass makes the same of a text when its literals are emptied. -/
theorem quotes_emptyLiterals (t : Text) :
    Pass.quotes.apply (Draft.ofChars (publicPart (emptyLiterals t))) =
      Pass.quotes.apply (Draft.ofChars (publicPart t)) := by
  induction t using Text.literalInduction with
  | nil => rfl
  | char c t hc ih =>
    rw [Text.emptyLiterals_char hc]
    cases hc' : isPrivate c with
    | true => rw [publicPart_cons_private hc', publicPart_cons_private hc', ih]
    | false =>
      rw [publicPart_cons hc', publicPart_cons hc', quotes_ofChars_char hc, quotes_ofChars_char hc,
        ih]
  | unpaired t ht _ => rw [Text.emptyLiterals_unpaired ht]
  | literal body t hbody ih =>
    rw [Text.emptyLiterals_literal hbody, publicPart_literal,
      quotes_ofChars_literal (not_mem_publicPart hbody), ← ih]
    exact quotes_ofChars_literal List.not_mem_nil (publicPart (emptyLiterals t))

theorem quoted_emptyLiterals (t : Text) : quoted (emptyLiterals t) = quoted t := by
  rw [quoted, quoted, ofText_eq_publicPart, ofText_eq_publicPart, Text.trim_emptyLiterals,
    quotes_emptyLiterals]

theorem draft_eq_foldl_quoted (t : Text) :
    draft t = Pass.all.tail.foldl (fun d p => p.apply d) (quoted t) := by
  rw [draft, quoted, Pass.all, List.foldl_cons, List.tail_cons]

/-- The passes after the first see nothing but the draft that it leaves. -/
theorem compile_eq_of_quoted_eq {t u : Text} (h : quoted t = quoted u) : compile t = compile u := by
  rw [compile, compile, draft_eq_foldl_quoted, draft_eq_foldl_quoted, h]

theorem compile_emptyLiterals (t : Text) : compile (emptyLiterals t) = compile t :=
  compile_eq_of_quoted_eq (quoted_emptyLiterals t)

/-- Texts that are the same but for what is inside their literals compile to the same pattern with
the same parameters. -/
theorem compile_eq_of_emptyLiterals_eq {t u : Text} (h : emptyLiterals t = emptyLiterals u) :
    compile t = compile u := by
  rw [← compile_emptyLiterals t, h, compile_emptyLiterals]

/-- Inside a literal there may be anything, also what looks like a group, an alternative, an escape
or a slot. -/
theorem compile_eq_of_emptyLiterals_eq_login :
    emptyLiterals " \"a \\(1/2) \x7bint\x7d\" or \"\ue001\n \" and 5 \"".toList =
        emptyLiterals " \"\" or \"x\" and 5 \"".toList ∧
      compile " \"a \\(1/2) \x7bint\x7d\" or \"\ue001\n \" and 5 \"".toList =
        compile " \"\" or \"x\" and 5 \"".toList := by
  have h : emptyLiterals " \"a \\(1/2) \x7bint\x7d\" or \"\ue001\n \" and 5 \"".toList =
      emptyLiterals " \"\" or \"x\" and 5 \"".toList := by decide +kernel
  exact ⟨h, compile_eq_of_emptyLiterals_eq h⟩

end Expression
end StepStubs
