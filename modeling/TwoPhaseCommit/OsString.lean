import TwoPhaseCommit.Utf8

/- Strings as an operating system hands them to a program: any bytes, whether they are UTF-8 or not. -/
namespace TwoPhaseCommit

structure OsString where
  bytes : Bytes
  deriving DecidableEq, Repr

namespace OsString

/-- A text is the string of its UTF-8 bytes. -/
def ofText (s : String) : OsString := ⟨Utf8.encode s⟩

instance : Coe String OsString := ⟨ofText⟩

instance : Append OsString := ⟨fun a b => ⟨a.bytes ++ b.bytes⟩⟩

/-- The text that the bytes spell, if they are UTF-8. -/
def text? (s : OsString) : Option String := (Utf8.decode s.bytes).toOption

/-- What comes after a beginning, if the string has it. -/
def after? (start s : OsString) : Option OsString := (start.bytes.isPrefixOf? s.bytes).map mk

end OsString
end TwoPhaseCommit
