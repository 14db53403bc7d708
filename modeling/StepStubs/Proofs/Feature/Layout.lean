/-
What reading a feature file does not look at.

Two contents are read alike if they agree line by line: the two lines are the same once they are
trimmed, or each of them stands in the body of a doc string.  The readers of the two contents then
stand at the same place after each line (`foldl_read_take_eq`); in particular they have the same
doc string open, so a line that is passed over in the one is passed over in the other, whatever it
looks like.
-/
import StepStubs.Proofs.Feature.Extraction
import StepStubs.Proofs.Text.Lines

namespace StepStubs
namespace Feature

variable {ls ls' : List Text} {n : Nat} {l l' : Text} {r : Reader} {f : Fence}

/-! ## Lines that are read alike -/

/-- Does the line stand in a doc string, and not start with its mark? -/
def IsBodyAt (ls : List Text) (i : Nat) : Prop := ∃ f, IsOpenAt ls i f ∧ ¬ HasFence ls i f

/-- Are the lines with the index `i` the same once they are trimmed, or does each stand in the body
of a doc string? -/
def AgreeAt (ls ls' : List Text) (i : Nat) : Prop :=
  ls[i]?.map Text.trim = ls'[i]?.map Text.trim ∨ IsBodyAt ls i ∧ IsBodyAt ls' i

theorem Reader.read_congr (h : Text.trim l = Text.trim l') (r : Reader) : r.read l = r.read l' := by
  rw [Reader.read, Reader.read, h]

theorem Reader.read_of_body (hf : r.openFence = some f) (hl : ¬ f.mark <+: Text.trim l) :
    r.read l = { r with linesRead := r.linesRead + 1 } := by
  have hstarts : f.starts (Text.trim l) = false := by
    rw [Fence.starts, ← Bool.not_eq_true, List.isPrefixOf_iff_prefix]
    exact hl
  simp [Reader.read, hf, Reader.readInside, hstarts]

/-- In a body the reader counts the line. -/
theorem Reader.HasRead.read_of_isBodyAt (h : r.HasRead ls n) (hl : ls[n]? = some l)
    (hbody : IsBodyAt ls n) : r.read l = { r with linesRead := r.linesRead + 1 } := by
  obtain ⟨f, hopen, hnot⟩ := hbody
  refine Reader.read_of_body ((h.openFence f).mpr hopen) fun hmark => hnot ⟨l, hl, ?_⟩
  rwa [← f.mark_eq_spelling]

theorem Reader.HasRead.read_eq_read (h : r.HasRead ls n) (h' : r.HasRead ls' n)
    (hl : ls[n]? = some l) (hl' : ls'[n]? = some l') (hagree : AgreeAt ls ls' n) :
    r.read l = r.read l' := by
  rcases hagree with htrim | ⟨hbody, hbody'⟩
  · rw [hl, hl'] at htrim
    exact Reader.read_congr (Option.some.inj htrim) r
  · rw [h.read_of_isBodyAt hl hbody, h'.read_of_isBodyAt hl' hbody']

/-- After the same number of lines the readers stand at the same place. -/
theorem foldl_read_take_eq (hlength : ls.length = ls'.length)
    (hagree : ∀ i < ls.length, AgreeAt ls ls' i) (hn : n ≤ ls.length) :
    (ls.take n).foldl Reader.read Reader.start = (ls'.take n).foldl Reader.read Reader.start := by
  induction n with
  | zero => rfl
  | succ n ih =>
    have hl : ls[n]? = some ls[n] := List.getElem?_eq_getElem hn
    have hl' : ls'[n]? = some ls'[n] := List.getElem?_eq_getElem (hlength ▸ hn)
    have hsame := ih (Nat.le_of_succ_le hn)
    have h := hasRead_foldl_take ls (Nat.le_of_succ_le hn)
    have h' := hasRead_foldl_take ls' (hlength ▸ Nat.le_of_succ_le hn)
    rw [← hsame] at h'
    rw [List.take_add_one, List.take_add_one, hl, hl', List.foldl_append, List.foldl_append,
      ← hsame]
    exact h.read_eq_read h' hl hl' (hagree n hn)

/-! ## Contents that are read alike -/

theorem extract_eq_of_agreeAt {content content' : Text}
    (hlength : (Text.lines content).length = (Text.lines content').length)
    (hagree : ∀ i < (Text.lines content).length,
      AgreeAt (Text.lines content) (Text.lines content') i) :
    extract content = extract content' := by
  have hsame := foldl_read_take_eq hlength hagree (Nat.le_refl _)
  rw [List.take_length, hlength, List.take_length] at hsame
  rw [extract, extract, hsame]

theorem extract_eq_of_map_trim_eq {content content' : Text}
    (h : (Text.lines content).map Text.trim = (Text.lines content').map Text.trim) :
    extract content = extract content' := by
  have hlength := congrArg List.length h
  rw [List.length_map, List.length_map] at hlength
  refine extract_eq_of_agreeAt hlength fun i _ => Or.inl ?_
  rw [← List.getElem?_map, ← List.getElem?_map, h]

/-- Lines in the body of the open doc string are counted and do nothing else. -/
theorem foldl_read_body {body : List Text} (hf : r.openFence = some f)
    (hbody : ∀ l ∈ body, ¬ f.mark <+: Text.trim l) :
    body.foldl Reader.read r = { r with linesRead := r.linesRead + body.length } := by
  induction body generalizing r with
  | nil => rfl
  | cons l body ih =>
    rw [List.foldl_cons, Reader.read_of_body hf (hbody l List.mem_cons_self),
      ih (r := { r with linesRead := r.linesRead + 1 }) hf fun l' hl' =>
        hbody l' (List.mem_cons_of_mem l hl')]
    simp only [List.length_cons, Nat.add_assoc, Nat.add_comm 1]

theorem extract_eq_of_body {content content' : Text} {before body body' after : List Text}
    (hlines : Text.lines content = before ++ body ++ after)
    (hlines' : Text.lines content' = before ++ body' ++ after)
    (hlength : body.length = body'.length)
    (hopen : IsOpenAt before before.length f) (hbody : ∀ l ∈ body, ¬ f.mark <+: Text.trim l)
    (hbody' : ∀ l ∈ body', ¬ f.mark <+: Text.trim l) : extract content = extract content' := by
  have hf : (before.foldl Reader.read Reader.start).openFence = some f :=
    ((hasRead_foldl before).openFence f).mpr hopen
  rw [extract, extract, hlines, hlines', List.foldl_append, List.foldl_append, List.foldl_append,
    List.foldl_append, foldl_read_body hf hbody, foldl_read_body hf hbody', hlength]

/-- Contents whose lines agree one by one are read alike.  So the blanks at the ends of lines do not
matter, nor whether lines end with a carriage return, nor what stands in the body of a doc string,
as long as it has as many lines and none of them starts with the mark. -/
theorem extract_ignores_layout :
    (∀ content content' : Text,
      (Text.lines content).length = (Text.lines content').length →
      (∀ i < (Text.lines content).length,
        AgreeAt (Text.lines content) (Text.lines content') i) →
      extract content = extract content') ∧
    (∀ content content' : Text,
      (Text.lines content).map Text.trim = (Text.lines content').map Text.trim →
      extract content = extract content') ∧
    (∀ content : Text, extract (Text.withReturns content) = extract content) ∧
    ∀ (content content' : Text) (before body body' after : List Text) (f : Fence),
      Text.lines content = before ++ body ++ after →
      Text.lines content' = before ++ body' ++ after →
      body.length = body'.length → IsOpenAt before before.length f →
      (∀ l ∈ body, ¬ f.mark <+: Text.trim l) → (∀ l ∈ body', ¬ f.mark <+: Text.trim l) →
      extract content = extract content' :=
  ⟨fun _ _ => extract_eq_of_agreeAt, fun _ _ => extract_eq_of_map_trim_eq,
    fun content => extract_eq_of_map_trim_eq (Text.map_trim_lines_withReturns content),
    fun _ _ _ _ _ _ _ => extract_eq_of_body⟩

/-- A step in a body may become the other mark, and lines may be indented or end with a carriage
return. -/
theorem extract_ignores_layout_indented :
    let content : Text := "Given a body\n\"\"\"\nThen no step\n\"\"\"\nWhen sent".toList
    let content' : Text := "  Given a body \r\n\"\"\"\n```\n\"\"\"\n\tWhen sent".toList
    (Text.lines content).length = (Text.lines content').length ∧
      (∀ i < (Text.lines content).length,
        AgreeAt (Text.lines content) (Text.lines content') i) ∧
      content ≠ content' ∧ extract content = extract content' := by
  intro content content'
  have hlength : (Text.lines content).length = (Text.lines content').length := by decide
  have hbody : IsBodyAt (Text.lines content) 2 :=
    ⟨.quotes, ((hasRead_foldl_take _ (by decide)).openFence .quotes).mp (by decide),
      fun hf => absurd ((hasFence_iff (by rfl)).mp hf) (by decide)⟩
  have hbody' : IsBodyAt (Text.lines content') 2 :=
    ⟨.quotes, ((hasRead_foldl_take _ (by decide)).openFence .quotes).mp (by decide),
      fun hf => absurd ((hasFence_iff (by rfl)).mp hf) (by decide)⟩
  have hagree : ∀ i < (Text.lines content).length,
      AgreeAt (Text.lines content) (Text.lines content') i := by
    intro i hi
    by_cases hi' : i = 2
    · rw [hi']
      exact Or.inr ⟨hbody, hbody'⟩
    · refine Or.inl ?_
      have htrim : ∀ i < 5, i ≠ 2 →
          (Text.lines content)[i]?.map Text.trim = (Text.lines content')[i]?.map Text.trim := by
        decide
      exact htrim i hi hi'
  exact ⟨hlength, hagree, by decide, extract_ignores_layout.1 content content' hlength hagree⟩

end Feature
end StepStubs
