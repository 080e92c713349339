/-!
How texts compare: the number of single-character insertions, deletions and replacements between them,
and the order in which people expect numbered names, `v2` before `v10`.
-/

namespace Assay.Text

/-- The next row of the distance table. `above` starts with the entry above `left`. -/
def distanceRow (c : Char) : List Char → List Nat → Nat → List Nat
  | d :: target, diagonal :: straight :: above, left =>
    let best := min (min (left + 1) (straight + 1)) (if c = d then diagonal else diagonal + 1)
    best :: distanceRow c target (straight :: above) best
  | _, _, _ => []

def distanceRows : List Char → List Char → List Nat → List Nat
  | [], _, row => row
  | c :: source, target, row =>
    let first := row.headD 0 + 1
    distanceRows source target (first :: distanceRow c target row first)

def editDistance (source target : String) : Nat :=
  let chars := target.toList
  (distanceRows source.toList chars (List.range (chars.length + 1))).getLastD 0

structure Closest where
  candidate : String
  distance : Nat
deriving DecidableEq, Repr

def closest (candidates : List String) (value : String) (limit : Int) : Option Closest :=
  candidates.foldl (fun best candidate =>
    let distance := editDistance candidate value
    let bound : Int := match best with
      | some found => found.distance
      | none => limit + 1
    if (distance : Int) < bound then some { candidate, distance } else best) none

def dropShared : List Char → List Char → List Char × List Char
  | a :: left, b :: right =>
    if a.isDigit || b.isDigit || a != b then (a :: left, b :: right) else dropShared left right
  | left, right => (left, right)

def numberOf (digits : List Char) : Nat :=
  digits.foldl (fun number digit => number * 10 + (digit.toNat - 48)) 0

def charsBefore : List Char → List Char → Bool
  | _, [] => false
  | [], _ :: _ => true
  | a :: left, b :: right => if a = b then charsBefore left right else a < b

/-- Runs of digits that fit 64 bits compare as numbers. Equal numbers are skipped only if both texts
go on after them, so that `01` and `1` are still told apart. -/
def naturalBeforeFrom : Nat → List Char → List Char → Bool
  | 0, left, right => charsBefore left right
  | fuel + 1, left, right =>
    let (left, right) := dropShared left right
    match left with
    | [] => !right.isEmpty
    | _ :: _ =>
      let leftDigits := left.takeWhile Char.isDigit
      let rightDigits := right.takeWhile Char.isDigit
      if leftDigits.isEmpty || rightDigits.isEmpty then charsBefore left right
      else
        let leftNumber := numberOf leftDigits
        let rightNumber := numberOf rightDigits
        if UInt64.size ≤ leftNumber || UInt64.size ≤ rightNumber then charsBefore left right
        else if leftNumber ≠ rightNumber then leftNumber < rightNumber
        else
          let leftRest := left.dropWhile Char.isDigit
          let rightRest := right.dropWhile Char.isDigit
          if leftRest.isEmpty || rightRest.isEmpty then charsBefore left right
          else naturalBeforeFrom fuel leftRest rightRest

def naturalBefore (left right : String) : Bool :=
  naturalBeforeFrom (left.length + 1) left.toList right.toList

def naturalSort (names : List String) : List String :=
  names.mergeSort (fun left right => !naturalBefore right left)

end Assay.Text
