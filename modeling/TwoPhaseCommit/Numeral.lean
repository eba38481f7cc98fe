/- Numbers in text. A `Numeral` is a form of writing numbers: its base, the bound below which they
   have to stay, and whether the digits are limited. `read` takes the digits at the beginning of a
   text, all of them, and leaves what follows. -/
namespace TwoPhaseCommit

structure Numeral where
  base : Nat
  /-- Numbers stay below it. -/
  bound : Nat
  /-- The greatest number of digits, if there is one. -/
  width : Option Nat
  /-- Whether a number of several digits may begin with a zero. -/
  leadingZero : Bool

namespace Numeral

/-- The value of a digit. Letters count from ten on, in either case. -/
def digit? (base : Nat) (c : Char) : Option Nat :=
  let n := c.toNat
  let v := if 48 ≤ n ∧ n ≤ 57 then n - 48
    else if 97 ≤ n ∧ n ≤ 122 then n - 87
    else if 65 ≤ n ∧ n ≤ 90 then n - 55
    else base
  if v < base then some v else none

/-- The values of the digits at the beginning of a text, and what follows them. -/
def digits (base : Nat) : List Char → List Nat × List Char
  | [] => ([], [])
  | c :: cs => match digit? base c with
    | none => ([], c :: cs)
    | some d =>
      let (ds, rest) := digits base cs
      (d :: ds, rest)

/-- The number that digits spell. -/
def value (base : Nat) (ds : List Nat) : Nat := ds.foldl (fun n d => n * base + d) 0

/-- Whether digits are as the form asks. -/
def admits (f : Numeral) (ds : List Nat) : Bool :=
  !ds.isEmpty && f.width.all (fun w => ds.length ≤ w) &&
    (f.leadingZero || ds.length ≤ 1 || ds.head? != some 0) && value f.base ds < f.bound

/-- The number at the beginning of a text and what follows it. -/
def read (f : Numeral) (cs : List Char) : Option (Nat × List Char) :=
  let (ds, rest) := digits f.base cs
  if f.admits ds then some (value f.base ds, rest) else none

/-- The number that is the whole text. -/
def readAll (f : Numeral) (cs : List Char) : Option Nat :=
  match f.read cs with
  | some (n, []) => some n
  | _ => none

/-- Decimal numbers below a bound, of any number of digits. -/
def decimal (bound : Nat) : Numeral := ⟨10, bound, none, true⟩

end Numeral
end TwoPhaseCommit
