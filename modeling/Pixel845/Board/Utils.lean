import Pixel845.Lib.Decimal
import Pixel845.Lib.Subst
import Mathlib.Data.List.Infix
import Mathlib.Logic.Function.Basic

/-!
# Board matching

`utils.mk`: the functions of the makefiles that compare a word with another one and that look a word up in a list. They are
written in the text functions of GNU make. What they hand to `eval` is read again as a line of a makefile, so a `#` in it starts a
comment and a `$` a reference, although the text was expanded before.
-/

namespace Pixel845.Board

/-- A text of make. -/
abbrev Text := List UInt8

/-! ## Variables -/

/-- The variables that `utils.mk` sets, and those that its functions use. -/
inductive Var where
  | empty
  | space
  | colon
  | underscore
  | wl
  | w
  | m
deriving DecidableEq

/-- The values of the variables. -/
abbrev Variables := Var → Text

/-- An expansion: it can assign variables, and an error ends make. -/
abbrev Make := StateT Variables Option

/-- The assignments at the head of `utils.mk`. -/
def includeUtils (vars : Variables) : Variables :=
  let vars := Function.update vars .colon (vars .empty ++ [58] ++ vars .empty)
  Function.update vars .underscore (vars .empty ++ [95] ++ vars .empty)

/-! ## The functions of GNU make -/

/-- `$(strip text)`. -/
def strip (text : Text) : Text := [32].intercalate (words isSpace text)

/-- `$(findstring pat,text)`. -/
def findstring (pat text : Text) : Text := if pat <:+: text then pat else []

/-- `$(or a,b)`, where the first text that is not empty is the result. -/
def makeOr (a b : Text) : Text := if a ≠ [] then a else b

/-- `$(if cond,a,b)`. -/
def makeIf {β : Type} (cond : Text) (a b : β) : β := if cond ≠ [] then a else b

/-- The line without its comment, after `n` backslashes. In a row of backslashes before a `#` two stand for one, and one that is
left over quotes the `#`. -/
def uncommentGo : Text → Nat → Text
  | [], n => List.replicate n 92
  | c :: text, n =>
    if c = 92 then uncommentGo text (n + 1)
    else if c = 35 then
      if n % 2 = 0 then List.replicate (n / 2) 92 else List.replicate (n / 2) 92 ++ 35 :: uncommentGo text 0
    else List.replicate n 92 ++ c :: uncommentGo text 0

/-- The line without its comment. -/
def uncomment (text : Text) : Text := uncommentGo text 0

section Eval

/- What `eval` does with a text that has a reference or a newline in it, which can be anything that a makefile can say. -/
variable (reread : Var → Text → Make Unit)

/-- `$(eval var:= text)`. -/
def evalAssign (var : Var) (text : Text) : Make Unit :=
  if 36 ∈ text ∨ 10 ∈ text then reread var text
  else modify (fun vars => Function.update vars var ((uncomment text).dropWhile isSpace))

/-! ## Matching -/

/-- What the functions answer for a match, `true`. -/
def yes : Text := [116, 114, 117, 101]

/-- `match-word`. -/
def matchWord (w1 w2 : Text) : Make Text := do
  let vars ← get
  let differ := makeOr (subst w1 (vars .empty) w2) (subst w2 (vars .empty) w1)
  return strip (makeIf differ [] yes ++ [32])

/-- `find-word-in-list`. -/
def findWordInList (w wlist : Text) : Make Text := do
  let vars ← get
  evalAssign reread .wl (vars .colon ++ subst (vars .space) (vars .colon) (strip wlist) ++ vars .colon)
  let vars ← get
  evalAssign reread .w (vars .colon ++ strip w ++ vars .colon)
  let vars ← get
  evalAssign reread .m (findstring (vars .w) (vars .wl))
  let vars ← get
  -- each `eval` expands to nothing, and the end of its line to a space
  return strip ([32, 32, 32] ++ makeIf (vars .m) w [] ++ [32])

/-- `match-word-in-list`. -/
def matchWordInList (w wlist : Text) : Make Text := do
  let answer ← makeIf (strip w)
    (do
      let found ← findWordInList reread w wlist
      let answer ← matchWord found (strip w)
      return 32 :: answer)
    (return [32])
  return strip (answer ++ [32])

end Eval

end Pixel845.Board
