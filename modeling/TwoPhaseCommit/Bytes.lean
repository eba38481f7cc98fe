/- Byte strings: the form in which records are stored and messages are sent. -/
namespace TwoPhaseCommit

/-- A byte string. -/
abbrev Bytes := List UInt8

end TwoPhaseCommit
