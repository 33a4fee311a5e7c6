import Blockwork.Text.CaseTable

/-!
Lowercase text, for comparing texts without regard to case.

Every character has a lowercase form of its own, with two exceptions: a capital I with a dot becomes
two characters, and a capital sigma at the end of a word takes the final form.
-/

namespace Blockwork.Text

def inRanges (ranges : Array (Nat × Nat)) (c : Char) : Bool :=
  ranges.any fun (first, last) => first ≤ c.toNat && c.toNat ≤ last

def isCased (c : Char) : Bool :=
  c.isAlpha || (128 ≤ c.toNat && inRanges casedRanges c)

def isCaseIgnorable (c : Char) : Bool := inRanges ignorableRanges c

/-- The lowercase form of a character that has one of one character. -/
def lowerChar (c : Char) : Char :=
  if c.toNat < 128 then c.toLower
  else
    let n := c.toNat
    match lowerRuns.find? fun (first, last, step, _) =>
        first ≤ n && n ≤ last && (n - first) % step == 0 with
    | some (first, _, _, image) => Char.ofNat (image + (n - first))
    | none => c

/-- Whether a letter with case comes next, marks and modifiers passed over. -/
def meetsCased (cs : List Char) : Bool :=
  match cs.dropWhile isCaseIgnorable with
  | c :: _ => isCased c
  | [] => false

/-- Lowercases the rest of a text, given the characters before it, the nearest first. -/
def lowerFrom : List Char → List Char → List Char
  | _, [] => []
  | before, c :: rest =>
    let image :=
      if c == 'Σ' then
        (if meetsCased before && !meetsCased rest then ['ς'] else ['σ'])
      else if c == 'İ' then ['i', '\u0307']
      else [lowerChar c]
    image ++ lowerFrom (c :: before) rest

def lowercase (s : String) : String := String.ofList (lowerFrom [] s.toList)

end Blockwork.Text
