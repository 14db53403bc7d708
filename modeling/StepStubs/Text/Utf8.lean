/-
Texts as bytes.

Files hold bytes.  `utf8` is how a text is stored, and `ofUtf8?` reads it again; bytes that
store no text are refused.
-/
import StepStubs.Text.Basic

namespace StepStubs
namespace Text

def utf8 (t : Text) : ByteArray := (String.ofList t).toUTF8

def ofUtf8? (bytes : ByteArray) : Option Text := (String.fromUTF8? bytes).map String.toList

def byteLength (t : Text) : Nat := (utf8 t).size

theorem ofUtf8?_utf8 (t : Text) : ofUtf8? (utf8 t) = some t := by
  have h : String.fromUTF8? (utf8 t) = some (String.ofList t) :=
    dif_pos (String.ofList t).isValidUTF8
  rw [ofUtf8?, h]
  exact congrArg some String.toList_ofList

end Text
end StepStubs
