/- JSON values: what is left of a JSON text once it has been read. The keys of an object are distinct,
   whatever the text did with members under one key. Of numbers only the integers are kept; any other
   number is a `fraction`. -/
namespace TwoPhaseCommit

inductive Json where
  | null
  | bool (b : Bool)
  | integer (n : Int)
  /-- A number with a fraction or an exponent. -/
  | fraction
  | string (s : String)
  | array (items : List Json)
  /-- A value for each of the keys. -/
  | object (keys : List String) (distinct : keys.Nodup) (value : (key : String) → key ∈ keys → Json)

namespace Json

instance : Inhabited Json := ⟨.null⟩

/-- The value that is listed under a key. -/
def valueOf (key : String) : (members : List (String × Json)) → key ∈ members.map Prod.fst → Json
  | (k, v) :: rest, listed =>
    if h : key = k then v else valueOf key rest ((List.mem_cons.1 listed).resolve_left h)

/-- The object with the members that are listed. -/
def ofMembers (members : List (String × Json))
    (distinct : (members.map Prod.fst).Nodup := by simp) : Json :=
  .object (members.map Prod.fst) distinct fun key listed => valueOf key members listed

/-- The keys of an object. -/
def keys : Json → List String
  | .object keys _ _ => keys
  | _ => []

/-- The value under a key of an object. -/
def member? (key : String) : Json → Option Json
  | .object keys _ value => if h : key ∈ keys then some (value key h) else none
  | _ => none

end Json
end TwoPhaseCommit
