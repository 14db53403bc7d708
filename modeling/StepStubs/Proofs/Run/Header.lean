/-
The header of a stub file as a script.

The module and the path of the feature file are written into the header as they are.  `readHeader?`
reads the header as a script is read: the string literal of the import line up to its closing quote,
and the comment up to the end of its line.  It gives back what was written exactly if the module
stands for itself between single quotes and no character of the path ends a line
(`readHeader?_stubsOf_iff`).

What makes a configuration unusable says nothing of the characters of the module, so not every
header is read back (`readHeader?_stubsOf_apostrophe`).
-/
import StepStubs.Config.Problem
import StepStubs.Proofs.Path.Characters
import StepStubs.Proofs.Run.Action
import StepStubs.Proofs.Stub.Reader
import StepStubs.Proofs.Stub.StringLiteral

namespace StepStubs
namespace Stub

/-! ## Reading a header -/

def importStart : Text := "import \x7b Given, When, Then, DataTable \x7d from '".toList

/-- What stands between the import line and the path of the feature file. -/
def commentStart : Text := '\n' :: "\n\n// Generated from: ".toList

/-- What the header of a stub file means: the code units of the module that is imported, and the
comment that names the feature file. -/
structure Header where
  moduleUnits : List Nat
  source : Text
  deriving DecidableEq

/-- The code units of the module of an import line.  Nothing but a semicolon follows its literal. -/
def readImport? (line : Text) : Option (List Nat) :=
  match (Text.afterStart? importStart line).bind StringLiteral.read with
  | some (units, [';']) => some units
  | _ => none

/-- The header of a text that starts with an import line. -/
def readHeader? (t : Text) : Option Header :=
  (readImport? (t.takeWhile (· ≠ '\n'))).bind fun units =>
    (Text.afterStart? commentStart (t.dropWhile (· ≠ '\n'))).map fun rest =>
      ⟨units, rest.takeWhile fun c => !isLineTerminator c⟩

variable {module source t : Text} {us : List Nat}

theorem readImport?_eq_some_iff :
    readImport? (importStart ++ t) = some us ↔ StringLiteral.read t = some (us, [';']) := by
  rw [readImport?, Text.afterStart?_append, Option.bind_some]
  split
  · next vs h =>
    rw [h]
    simp
  · next h => exact iff_of_false nofun fun hread => h us hread

theorem readImport?_module_iff :
    readImport? (importStart ++ module ++ "';".toList) = some (StringLiteral.units module) ↔
      ∀ c ∈ module, StringLiteral.isPlain c = true := by
  rw [List.append_assoc, readImport?_eq_some_iff]
  exact StringLiteral.read_append_iff

/-- A line that ends before the closing quote of the module is no import of the module. -/
theorem readImport?_ne {u : Text} :
    readImport? (importStart ++ t) ≠ some (StringLiteral.units (t ++ '\n' :: u)) := by
  intro hread
  obtain ⟨source, hsource, hle, -⟩ :=
    StringLiteral.exists_source_of_readFrom (readImport?_eq_some_iff.mp hread)
  have ht : t = source ++ '\x27' :: [';'] := hsource
  have hend := (StringLiteral.length_pointUnits '\n'.toNat).1
  rw [StringLiteral.units_append, StringLiteral.units_cons, ht, StringLiteral.units_append,
    List.length_append, List.length_append, List.length_append] at hle
  omega

/-! ## The header of a stub file -/

theorem header_eq (module source : Text) (total unique : Nat) :
    header module source total unique =
      importStart ++ module ++ ('\x27' :: ';' :: commentStart) ++ source ++
        ('\n' :: "// Total steps: ".toList) ++ Text.ofNat total ++ " (".toList ++
        Text.ofNat unique ++ " unique)\n\n\n".toList := by
  rfl

theorem exists_file_eq (steps : StepSet) (total : Nat) (source module : Text) :
    ∃ tail, file steps total source module =
      importStart ++ module ++ "';".toList ++ (commentStart ++ (source ++ '\n' :: tail)) := by
  rw [file, header_eq]
  simp only [List.append_assoc, List.cons_append]
  exact ⟨_, rfl⟩

theorem takeWhile_eq_iff (source tail : Text) :
    ((source ++ '\n' :: tail).takeWhile fun c => !isLineTerminator c) = source ↔
      ∀ c ∈ source, isLineTerminator c = false := by
  refine ⟨fun h c hc => ?_, fun h => ?_⟩
  · rw [← h] at hc
    simpa using List.mem_takeWhile_imp hc
  · rw [List.takeWhile_append_of_pos fun c hc => by rw [h c hc]; rfl,
      List.takeWhile_cons_of_neg (by decide), List.append_nil]

theorem readHeader?_append {line : Text} (hline : '\n' ∉ line) (t : Text) :
    readHeader? (line ++ (commentStart ++ t)) =
      (readImport? line).map fun units => ⟨units, t.takeWhile fun c => !isLineTerminator c⟩ := by
  have hcut := takeWhile_append_cons (t := "\n\n// Generated from: ".toList ++ t) hline
  rw [readHeader?, commentStart, List.cons_append, hcut.1, hcut.2, ← List.cons_append,
    ← commentStart, Text.afterStart?_append]
  cases readImport? line <;> rfl

/-- A header that was read has read its first line. -/
theorem readImport?_of_readHeader? {line : Text} {h : Header} (hline : '\n' ∉ line)
    (hread : readHeader? (line ++ '\n' :: t) = some h) :
    readImport? line = some h.moduleUnits := by
  rw [readHeader?, (takeWhile_append_cons hline).1] at hread
  obtain ⟨us, hus, hrest⟩ := Option.bind_eq_some_iff.mp hread
  obtain ⟨rest, -, rfl⟩ := Option.map_eq_some_iff.mp hrest
  exact hus

/-- The header of a stub file is read back exactly if the module stands for itself between single
quotes and no character of the path ends a line. -/
theorem readHeader?_file_eq_iff (steps : StepSet) (total : Nat) (source module : Text) :
    readHeader? (file steps total source module) = some ⟨StringLiteral.units module, source⟩ ↔
      (∀ c ∈ module, StringLiteral.isPlain c = true) ∧
        ∀ c ∈ source, isLineTerminator c = false := by
  obtain ⟨tail, hfile⟩ := exists_file_eq steps total source module
  by_cases hline : '\n' ∈ module
  · -- The first line breaks off within the module.
    refine iff_of_false (fun hread => ?_) fun h => ?_
    · obtain ⟨t, u, rfl, ht⟩ := List.eq_append_cons_of_mem hline
      have hfirst : '\n' ∉ importStart ++ t := by
        rw [List.mem_append, not_or]
        exact ⟨by decide, ht⟩
      have hsplit : file steps total source (t ++ '\n' :: u) = importStart ++ t ++ '\n' ::
          (u ++ ("';".toList ++ (commentStart ++ (source ++ '\n' :: tail)))) := by
        rw [hfile]
        simp only [List.append_assoc, List.cons_append]
      rw [hsplit] at hread
      exact readImport?_ne (readImport?_of_readHeader? hfirst hread)
    · exact absurd rfl (StringLiteral.isPlain_iff.mp (h.1 _ hline)).2.2.1
  · have hfirst : '\n' ∉ importStart ++ module ++ "';".toList := by
      rw [List.mem_append, List.mem_append, not_or, not_or]
      exact ⟨⟨by decide, hline⟩, by decide⟩
    rw [hfile, readHeader?_append hfirst, ← readImport?_module_iff, ← takeWhile_eq_iff source tail]
    cases readImport? (importStart ++ module ++ "';".toList) with
    | none => simp
    | some us => simp

end Stub

/-! ## The stub files of a project -/

namespace Run
namespace Project

open Stub (isLineTerminator readHeader?)
open Stub.StringLiteral (isPlain units)

/-- The header of the stub file of a feature file names the module and the feature file in a string
literal and a comment that end where they should, exactly if the module has no quote, backslash or
line end, and the shown path has no line end.  The shown path has none if the path has none. -/
theorem readHeader?_stubsOf_iff (p : Project) (f : Path) (content : Text) :
    (readHeader? (p.stubsOf f content) =
        some ⟨units p.config.cucumberModule, p.relative f⟩ ↔
      (∀ c ∈ p.config.cucumberModule, isPlain c = true) ∧
        ∀ c ∈ p.relative f, isLineTerminator c = false) ∧
      ((∀ c ∈ f.text, isLineTerminator c = false) →
        ∀ c ∈ p.relative f, isLineTerminator c = false) :=
  ⟨Stub.readHeader?_file_eq_iff _ _ _ _,
    fun h => Path.forall_mem_displayRelative (by decide) (by decide) h p.root⟩

/-- The project in `p` with a module. -/
def importing (module : Text) : Project :=
  ⟨⟨['p']⟩, { Config.default with cucumberModule := module }⟩

theorem readHeader?_stubsOf_login :
    (∀ c ∈ "p/tests/features/login.feature".toList, isLineTerminator c = false) ∧
      readHeader? ((importing "@cucumber/cucumber".toList).stubsOf
          (.ofString "p/tests/features/login.feature") "Given a user\n".toList) =
        some ⟨units "@cucumber/cucumber".toList, "tests/features/login.feature".toList⟩ := by
  have hpath : ∀ c ∈ "p/tests/features/login.feature".toList, isLineTerminator c = false :=
    fun c hc => Bool.eq_false_iff.mpr (List.any_eq_false.mp (by decide) c hc)
  have hmodule : ∀ c ∈ "@cucumber/cucumber".toList, isPlain c = true :=
    List.all_eq_true.mp (by decide)
  obtain ⟨hheader, hsource⟩ := readHeader?_stubsOf_iff (importing "@cucumber/cucumber".toList)
    (.ofString "p/tests/features/login.feature") "Given a user\n".toList
  have hshown : (importing "@cucumber/cucumber".toList).relative
      (.ofString "p/tests/features/login.feature") = "tests/features/login.feature".toList := by
    decide +kernel
  refine ⟨hpath, (hheader.mpr ⟨hmodule, hsource hpath⟩).trans ?_⟩
  rw [hshown]
  rfl

/-- Both modules can be used.  The first has a quote, so that the import line of the stub file is
none, and the name of the feature file in the second project goes over the end of the comment. -/
theorem readHeader?_stubsOf_apostrophe :
    (importing "it's".toList).config.problem? = none ∧
      readHeader? ((importing "it's".toList).stubsOf
        (.ofString "p/tests/features/login.feature") "Given a user\n".toList) = none ∧
      (importing "m".toList).config.problem? = none ∧
      readHeader? ((importing "m".toList).stubsOf
          (.ofString "p/tests/features/log\nin.feature") "Given a user\n".toList) =
        some ⟨units "m".toList, "tests/features/log".toList⟩ := by
  exact ⟨by decide +kernel, by decide +kernel, by decide +kernel, by decide +kernel⟩

end Project
end Run
end StepStubs
