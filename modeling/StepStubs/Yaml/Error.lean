/-
What is wrong with a YAML text.
-/
import StepStubs.Text.Basic

namespace StepStubs
namespace Yaml

/-- The first fault of a YAML text, or of the document that it holds. -/
inductive Error where
  | controlCharacter
  | badDirective
  | badVersion
  | repeatedDirective
  | badAnchor
  | badTag
  | undefinedHandle
  | unknownAnchor
  | badBlockHeader
  | badEscape
  | openQuote
  | markInQuote
  | tabInIndentation
  | colonInFlow
  | keyWithoutColon
  | misplacedEntry
  | misplacedKey
  | misplacedValue
  | badStart
  | missingContent
  | missingEnd
  | missingDocumentStart
  | severalDocuments
  | wrongKind
  | repeatedField
  deriving Repr, DecidableEq

def Error.message : Error → Text
  | controlCharacter => "control characters are not allowed".toList
  | badDirective => "a directive is malformed".toList
  | badVersion => "the document needs another version of the format".toList
  | repeatedDirective => "a directive is repeated".toList
  | badAnchor => "an anchor or alias is malformed".toList
  | badTag => "a tag is malformed".toList
  | undefinedHandle => "a tag has an undefined handle".toList
  | unknownAnchor => "an alias names no anchor".toList
  | badBlockHeader => "the first line of a block scalar is malformed".toList
  | badEscape => "unknown escape sequence".toList
  | openQuote => "a quoted scalar does not end".toList
  | markInQuote => "a document marker stands inside a quoted scalar".toList
  | tabInIndentation => "a tab stands where indentation is expected".toList
  | colonInFlow => "unexpected ':' in a flow collection".toList
  | keyWithoutColon => "a key is not followed by ':'".toList
  | misplacedEntry => "a sequence entry is not allowed here".toList
  | misplacedKey => "a mapping key is not allowed here".toList
  | misplacedValue => "a mapping value is not allowed here".toList
  | badStart => "a character cannot start any token".toList
  | missingContent => "content is missing".toList
  | missingEnd => "a collection does not go on and does not end".toList
  | missingDocumentStart => "a document start is missing".toList
  | severalDocuments => "there is more than one document".toList
  | wrongKind => "a value is of the wrong kind".toList
  | repeatedField => "a field is repeated".toList

end Yaml
end StepStubs
