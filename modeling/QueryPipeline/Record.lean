import QueryPipeline.Name

/-!
# Records

A record is a list of named entries in which each name occurs once. Entries given one after the
other are collected by two rules: a repeated name keeps its first place and takes its last value,
and names that are array indexes come first, in ascending order.

* `collect` applies the first rule, `enumerate` both;
* `reservedWords` are found in every record, `reservedKey` is the one that cannot be put into it;
* `arrayIndex?` recognises the names `0` to `4294967294`, written without leading zeros.
-/

namespace QueryPipeline

/-- The one key under which an assignment makes no entry. -/
def reservedKey : String := "__proto__"

/-- The words that every record answers although nothing was put there. -/
def reservedWords : List String :=
  ["constructor", reservedKey, "toString", "toLocaleString", "valueOf", "hasOwnProperty",
    "isPrototypeOf", "propertyIsEnumerable", "__defineGetter__", "__defineSetter__",
    "__lookupGetter__", "__lookupSetter__"]

namespace Record

variable {α : Type}

/-! ## 1. Collecting -/

/-- Puts a value under a name: in place of the value there, or at the end. -/
def put (name : String) (value : α) : List (String × α) → List (String × α)
  | [] => [(name, value)]
  | (n, v) :: rest => if n = name then (n, value) :: rest else (n, v) :: put name value rest

/-- Collects entries: first places, last values. -/
def collect (entries : List (String × α)) : List (String × α) :=
  entries.foldl (fun record e => put e.1 e.2 record) []

/-! ## 2. Order -/

/-- The greatest array index. -/
def maxArrayIndex : Nat := 4294967294

/-- The array index that a name writes, if it writes one. -/
def arrayIndex? (name : String) : Option Nat := do
  let ds ← name.toList.mapM Digit.ofChar?
  let n := digitsValue ds
  guard (ds ≠ [] ∧ digits n = ds ∧ n ≤ maxArrayIndex)
  some n

/-- Inserts an entry behind the entries with smaller or equal indexes. -/
def insertByIndex (index : Nat) (entry : String × α) :
    List (Nat × String × α) → List (Nat × String × α)
  | [] => [(index, entry)]
  | (i, e) :: rest =>
    if index < i then (index, entry) :: (i, e) :: rest else (i, e) :: insertByIndex index entry rest

/-- The entries whose names are array indexes, in ascending order. -/
def indexed : List (String × α) → List (Nat × String × α)
  | [] => []
  | e :: rest =>
    match arrayIndex? e.1 with
    | some i => insertByIndex i e (indexed rest)
    | none => indexed rest

/-- The entries of a record in the order in which they are enumerated. -/
def enumerate (entries : List (String × α)) : List (String × α) :=
  let record := collect entries
  (indexed record).map Prod.snd ++ record.filter fun e => (arrayIndex? e.1).isNone

end Record
end QueryPipeline
