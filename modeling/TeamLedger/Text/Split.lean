/-
Cutting text into parts.
-/
set_option autoImplicit false

namespace TeamLedger.Text

/-- The parts between the places where a character stands; one more than there are places. -/
def partsBetween (mark : Char) : List Char → List (List Char)
  | [] => [[]]
  | c :: cs =>
    match partsBetween mark cs with
    | [] => [[c]]
    | part :: parts => if c = mark then [] :: part :: parts else (c :: part) :: parts

/-- The characters before the first place where a character stands, and those behind it. -/
def cutAt (mark : Char) (cs : List Char) : List Char × List Char :=
  (cs.takeWhile (· != mark), (cs.dropWhile (· != mark)).drop 1)

/-- There is always a part. -/
theorem partsBetween_ne_nil (mark : Char) (cs : List Char) : partsBetween mark cs ≠ [] := by
  cases cs with
  | nil => simp [partsBetween]
  | cons c cs =>
    rw [partsBetween]
    split
    · simp
    · split <;> simp

/-- Without the character the text is one part. -/
theorem partsBetween_of_not_mem {mark : Char} {cs : List Char} (h : mark ∉ cs) :
    partsBetween mark cs = [cs] := by
  induction cs with
  | nil => rfl
  | cons c cs ih =>
    have head_ne : c ≠ mark := fun e => h (e ▸ List.mem_cons_self)
    rw [partsBetween, ih fun tail => h (List.mem_cons_of_mem _ tail)]
    simp [head_ne]

end TeamLedger.Text
