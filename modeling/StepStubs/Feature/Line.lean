/-
The lines of a feature file.

What a line is depends on its trimmed text alone, apart from doc strings, whose lines the
reader of the file skips.  `LineKind.of` is the grammar: the first characters decide, and
a step line is a leading word, at least one blank, and some text.
-/
import StepStubs.Step.Phase

namespace StepStubs
namespace Feature

inductive Fence where
  | quotes
  | backticks
  deriving Repr, DecidableEq

def Fence.mark : Fence → Text
  | quotes => "\"\"\"".toList
  | backticks => "```".toList

def Fence.starts (f : Fence) (line : Text) : Bool := f.mark.isPrefixOf line

inductive LineKind where
  | blank
  | comment
  | tag
  | tableRow
  | fence (f : Fence)
  | header
  | step (lead : LeadWord) (rest : Text)
  | unrecognized
  deriving Repr, DecidableEq

/-- The words that open a section of a feature file when a colon follows them. -/
def headerWords : List Text :=
  ["Feature".toList, "Rule".toList, "Background".toList, "Scenario Outline".toList,
   "Scenario Template".toList, "Scenario".toList, "Examples".toList, "Example".toList,
   "Scenarios".toList]

def headerStarts : List Text := headerWords.map fun w => w ++ [':']

def isHeader (line : Text) : Bool := headerStarts.any fun start => start.isPrefixOf line

/-- The text of a step line after its leading word `word`: what follows the blanks after
the word.  There has to be a blank, and then some text. -/
def afterLeadWord? (word line : Text) : Option Text :=
  match Text.afterStart? word line with
  | some (c :: rest) =>
    let text := Text.trimStart rest
    if Text.isBlank c && !text.isEmpty then some text else none
  | _ => none

def stepParts? (line : Text) : Option (LeadWord × Text) :=
  LeadWord.all.findSome? fun l => (afterLeadWord? l.word line).map fun rest => (l, rest)

def LineKind.of (line : Text) : LineKind :=
  match line with
  | [] => .blank
  | '#' :: _ => .comment
  | '@' :: _ => .tag
  | '|' :: _ => .tableRow
  | _ =>
    if Fence.quotes.starts line then .fence .quotes
    else if Fence.backticks.starts line then .fence .backticks
    else if isHeader line then .header
    else match stepParts? line with
      | some (lead, rest) => .step lead rest
      | none => .unrecognized

end Feature
end StepStubs
