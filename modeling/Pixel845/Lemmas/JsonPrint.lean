import Pixel845.Json.Value

/-!
# The text of a value

The calls that write a value make a text: quoted strings are written byte by byte, and between values there are only blanks,
commas and brackets.
-/

namespace Pixel845.Json

/-- The bytes that a call puts behind the text. -/
def PrintbufCall.bytes : PrintbufCall → List UInt8
  | .memappend bs | .memappendFast bs | .sprintbuf bs => bs
  | .memset _ charvalue len => List.replicate len charvalue
  | .reset => []

/-- The bytes that calls put behind the text. -/
def callsText (calls : List PrintbufCall) : List UInt8 := calls.flatMap PrintbufCall.bytes

variable {calls calls' : List PrintbufCall} {call : PrintbufCall} {c : UInt8} {s : List UInt8} {flags : PrintFlags} {level : Nat}

@[simp] theorem callsText_nil : callsText [] = [] := rfl

@[simp] theorem callsText_cons : callsText (call :: calls) = call.bytes ++ callsText calls := rfl

/-- The text of calls one after the other. -/
@[simp] theorem callsText_append : callsText (calls ++ calls') = callsText calls ++ callsText calls' := List.flatMap_append

/-! ## Strings -/

/-- How a byte of a string is written. -/
def escapeByte (c : UInt8) : List UInt8 :=
  match jsonEscapeCall c with
  | some call => call.bytes
  | none => [c]

/-- How a string is written, between its quotes. -/
def escapeText (s : List UInt8) : List UInt8 := s.flatMap escapeByte

theorem callsText_flushRun (run : List UInt8) : callsText (flushRun run) = run := by
  cases run <;> simp [flushRun, PrintbufCall.bytes]

/-- The copies of `json_escape_str` and its escapes are in the order of the bytes. -/
theorem callsText_jsonEscapeLoop (run s : List UInt8) : callsText (jsonEscapeLoop run s) = run ++ escapeText s := by
  induction s generalizing run with
  | nil => simp [jsonEscapeLoop, callsText_flushRun, escapeText]
  | cons c s ih =>
    rw [jsonEscapeLoop, escapeText, List.flatMap_cons, escapeByte]
    cases jsonEscapeCall c with
    | some call => simp [callsText_flushRun, ih, escapeText]
    | none => simp [ih, escapeText]

/-- The calls of the escaper make the escaped text. -/
@[simp] theorem callsText_jsonEscapeStr (s : List UInt8) : callsText (jsonEscapeStr s) = escapeText s :=
  callsText_jsonEscapeLoop [] s

/-! ## Blanks -/

/-- White space only. -/
def Blank (s : List UInt8) : Prop := ∀ c ∈ s, isSpace c = true

/-- White space behind white space. -/
theorem Blank.append {s s' : List UInt8} (h : Blank s) (h' : Blank s') : Blank (s ++ s') := fun c hc =>
  (List.mem_append.mp hc).elim (h c) (h' c)

theorem blank_nil : Blank [] := List.forall_mem_nil _

/-- The indentation is white space. -/
theorem blank_indent (flags : PrintFlags) (level : Nat) : Blank (callsText (indent flags level)) := by
  unfold indent
  split
  · intro c hc
    have hc' : c = 32 := List.eq_of_mem_replicate (by simpa [PrintbufCall.bytes] using hc)
    subst hc'
    rfl
  · exact blank_nil

/-- The line break is white space. -/
theorem blank_prettyBreak (flags : PrintFlags) : Blank (callsText (prettyBreak flags)) := by
  unfold prettyBreak
  split
  · intro c hc
    obtain rfl : c = 10 := by simpa [PrintbufCall.bytes, bytesOf] using hc
    rfl
  · exact blank_nil

/-- The space is white space. -/
theorem blank_spaced (flags : PrintFlags) : Blank (callsText (if flags.spaced then [.sprintbuf (bytesOf " ")] else [])) := by
  split
  · intro c hc
    obtain rfl : c = 32 := by simpa [PrintbufCall.bytes, bytesOf] using hc
    rfl
  · exact blank_nil

/-- Only blanks come in front of the first child. -/
theorem blank_childPrefix (flags : PrintFlags) (level : Nat) : Blank (callsText (childPrefix flags level false)) := by
  simp only [childPrefix, Bool.false_eq_true, if_false, List.nil_append, callsText_append]
  exact (blank_spaced flags).append (blank_indent flags level)

/-- A comma and blanks come in front of another one. -/
theorem childPrefix_true (flags : PrintFlags) (level : Nat) :
    ∃ ws, Blank ws ∧ callsText (childPrefix flags level true) = 44 :: ws := by
  refine ⟨callsText (prettyBreak flags) ++ callsText (childPrefix flags level false),
    (blank_prettyBreak flags).append (blank_childPrefix flags level), ?_⟩
  simp [childPrefix, PrintbufCall.bytes, bytesOf]

/-- Blanks and the bracket come behind the children. -/
theorem closing_text (flags : PrintFlags) (level : Nat) (hadChildren : Bool) (bracket : String) :
    ∃ ws, Blank ws ∧ callsText (closing flags level hadChildren bracket) = ws ++ bytesOf bracket := by
  have hbreak : Blank (callsText (if hadChildren then [.sprintbuf (bytesOf "\n")] else [])) := by
    split
    · intro c hc
      obtain rfl : c = 10 := by simpa [PrintbufCall.bytes, bytesOf] using hc
      rfl
    · exact blank_nil
  have hpretty : Blank (callsText (if flags.pretty then (if hadChildren then [.sprintbuf (bytesOf "\n")] else []) ++
      indent flags level else [])) := by
    split
    · rw [callsText_append]
      exact hbreak.append (blank_indent flags level)
    · exact blank_nil
  refine ⟨_, hpretty.append (blank_spaced flags), ?_⟩
  cases hspaced : flags.spaced <;> simp [closing, hspaced, PrintbufCall.bytes]

end Pixel845.Json
