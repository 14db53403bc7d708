/-
Writing a text between backticks.

Inside a template literal a backslash, a backtick and a dollar sign before an opening brace
mean something; `encode` puts a backslash before each of them.  A dollar sign anywhere else
stands for itself.
-/
import StepStubs.Text.Basic

namespace StepStubs
namespace Stub
namespace TemplateLiteral

def startsBrace : Text → Bool
  | '\x7b' :: _ => true
  | _ => false

def encode : Text → Text
  | [] => []
  | c :: t =>
    if c = '\\' ∨ c = '\x60' ∨ (c = '$' ∧ startsBrace t = true) then '\\' :: c :: encode t
    else c :: encode t

end TemplateLiteral
end Stub
end StepStubs
