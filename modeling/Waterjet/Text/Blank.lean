/-!
White space and the cutting of text at it. A word is a maximal run of characters that are not
separators; `words` never yields an empty one.
-/
namespace Waterjet.Text

/-- White space: the controls U+0009 to U+000D and U+001C to U+001F, the next-line control, and
every space, line and paragraph separator of Unicode. -/
def isBlank (c : Char) : Bool :=
  let n := c.toNat
  (0x09 ≤ n && n ≤ 0x0D) || (0x1C ≤ n && n ≤ 0x20) || n == 0x85 || n == 0xA0 || n == 0x1680 ||
    (0x2000 ≤ n && n ≤ 0x200A) || n == 0x2028 || n == 0x2029 || n == 0x202F || n == 0x205F ||
    n == 0x3000

/-- Drop the longest run of characters in the class from the end. -/
def dropEnd (p : Char → Bool) (cs : List Char) : List Char :=
  (cs.reverse.dropWhile p).reverse

theorem eq_dropEnd_append (c : Char) (cs : List Char) :
    ∃ k, cs = dropEnd (· == c) cs ++ List.replicate k c := by
  have hsame : cs.reverse.takeWhile (· == c) =
      List.replicate (cs.reverse.takeWhile (· == c)).length c := by
    apply List.eq_replicate_of_mem
    intro d hd
    exact beq_iff_eq.mp (List.all_eq_true.mp List.all_takeWhile d hd)
  have hsplit : cs.reverse.takeWhile (· == c) ++ cs.reverse.dropWhile (· == c) = cs.reverse :=
    List.takeWhile_append_dropWhile
  rw [hsame] at hsplit
  have hreverse := congrArg List.reverse hsplit
  rw [List.reverse_append, List.reverse_replicate, List.reverse_reverse] at hreverse
  exact ⟨_, hreverse.symm⟩

/-- Drop the characters of the class from both ends. -/
def trim (p : Char → Bool) (cs : List Char) : List Char :=
  dropEnd p (cs.dropWhile p)

def strip (cs : List Char) : List Char := trim isBlank cs

/-- Words stand apart by white space or commas. -/
def isSeparator (c : Char) : Bool := isBlank c || c == ','

def words (cs : List Char) : List (List Char) :=
  (cs.splitOnP isSeparator).filter (!·.isEmpty)

/-- The segments that a line feed ends; the last one may go unended. -/
def physicalLines (cs : List Char) : List (List Char) :=
  let segments := cs.splitOnP (· == '\n')
  if segments.getLast? = some [] then segments.dropLast else segments

/-- A line feed is dropped where a carriage return has just been written as one. -/
def unifyStep : Bool × List Char → Char → Bool × List Char
  | (afterReturn, done), c =>
    if c == '\r' then (true, '\n' :: done)
    else if afterReturn && c == '\n' then (false, done)
    else (false, c :: done)

/-- Write every line end as a single line feed: a carriage return counts as one, alone or with a
line feed behind it. -/
def unifyLineEnds (cs : List Char) : List Char :=
  (cs.foldl unifyStep (false, [])).2.reverse

end Waterjet.Text
